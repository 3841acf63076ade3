import TomasuloCpu.Operands

set_option autoImplicit false

/-!
# Refinement of the sequential CPU

What the CPU retires is what `fakecpu` executes, as long as no tick takes the
target of a JALR for its link or pushes a load past a store.
-/
namespace TomasuloCpu
open Clocked

theorem memGetInst_applyStores {data : MemData} {stores : List (Addr × Word × LsSize)} {pc : Addr}
    (h : ∀ st ∈ stores, Apart st.1 (lsBytes st.2.2) pc 4) :
    memGetInst (applyStores data stores) pc = memGetInst data pc := by
  induction stores generalizing data with
  | nil => rfl
  | cons st stores ih =>
    rw [applyStores, List.foldl_cons]
    refine (ih fun x hx => h x (List.mem_cons_of_mem _ hx)).trans ?_
    rw [applyStore]
    cases hs : memSetSz data st.1 st.2.1 st.2.2 with
    | none => rfl
    | some data' => exact memGetInst_memSetSz hs (h st List.mem_cons_self)

/-- The instruction was fetched after some of the retired stores. -/
def Plain.Fetched (image : MemData) (q : Plain) (data : RobPayload) : Prop :=
  ∃ stores, stores <+: q.retiredStores ∧
    data.inst = instDecode (memGetInst (applyStores image stores) data.pc)

variable {s s' : Latched} {q p q' : Plain} {image : MemData} {data : RobPayload} {cpu : FakeCpu}

theorem Plain.Fetched.inst_eq (h : q.Fetched image data) (hc : cpu.FetchesOriginal)
    (he : cpu.executed = q.retired.map RobPayload.effect) (hd : cpu.data = q.memory image)
    (hpc : data.pc = cpu.pc) : data.inst = instDecode (memGetInst cpu.data cpu.pc) := by
  have hapart : ∀ st ∈ q.retiredStores, Apart st.1 (lsBytes st.2.2) cpu.pc 4 := by
    intro st hst
    obtain ⟨d, hm, hs⟩ := List.mem_filterMap.1 hst
    unfold RobPayload.store? at hs
    split_ifs at hs with ho
    cases hs
    have heff := hc d.effect (by rw [he]; exact List.mem_map_of_mem hm)
    rw [RobPayload.effect, ho] at heff
    exact heff
  obtain ⟨stores, hpre, hi⟩ := h
  rw [hi, hd, hpc, Plain.memory, memGetInst_applyStores hapart,
    memGetInst_applyStores fun st hst => hapart st (hpre.subset hst)]

variable [WideShift]

theorem Step.fetched_from (st : Step s q p s' q') (ctl : Control s) (so : StoresOk s q)
    (lo : LoadsOrdered image s q) (so' : StoresOk s' q') (lo' : LoadsOrdered image s' q')
    (hc : s.rm.robs.clear = false)
    (h : ∀ slot ∈ s.robs, q.Fetched image (s.rm.robPayload slot)) :
    ∀ slot ∈ s'.robs, q'.Fetched image (s'.rm.robPayload slot) := by
  have hpre : q.retiredStores <+: q'.retiredStores := by
    rw [Plain.retiredStores, Plain.retiredStores, st.retired, List.filterMap_append]
    exact List.prefix_append _ _
  have hperf : ∀ {s q}, StoresOk s q → q.performed <+: q.retiredStores := by
    intro s q so
    rw [← so.order, List.append_assoc]
    exact List.prefix_append _ _
  intro slot hs
  rcases (st.mem_robs ctl hc).1 hs with ⟨hm, -⟩ | ⟨hd, rfl⟩
  · obtain ⟨stores, hp, hi⟩ := h slot hm
    have hsame := st.robPayload_same ctl hm
    exact ⟨stores, hp.trans hpre, by rw [hsame.inst, hsame.pc, hi]⟩
  · obtain ⟨⟨rs, inst⟩, hd⟩ := Option.isSome_iff_exists.1 hd
    have hi := (dispatch_spec hd).1
    obtain ⟨-, -, hpc, hinst⟩ := st.entry_dispatch hd
    rw [Plain.Fetched, hpc, hinst, hi]
    rcases st.fetched with hf | hf
    · exact ⟨q.performed, (hperf so).trans hpre, by rw [hf, lo.data]⟩
    · exact ⟨q'.performed, hperf so', by rw [hf, lo'.data]⟩

/-- `fakecpu`, after a tick for each retired instruction, is where the CPU is. -/
structure Simulates (image : MemData) (s : Latched) (q : Plain) (cpu : FakeCpu) : Prop where
  run : FakeCpu.run q.retired.length (fakeCpuCreate image) = some cpu
  running : cpu.hcf = false
  executed : cpu.executed = q.retired.map RobPayload.effect
  arch : cpu.arch = s.committed (q.memory image)
  path : OnPath s q cpu.pc

/-- All that is known of a run in which operands and loads are right. -/
structure Refines (image : MemData) (s : Latched) (q : Plain) : Prop where
  coherent : Coherent s
  branches : Branches s
  stores : StoresOk s q
  loads : LoadsOrdered image s q
  operands : Operands (q.memory image) s
  fetched : ∀ slot ∈ s.robs, q.Fetched image (s.rm.robPayload slot)
  simulated : ∃ cpu, Simulates image s q cpu

theorem Simulates.always {P : FakeCpu → Prop} (sim : Simulates image s q cpu)
    (ha : (fakeCpuCreate image).Always P) : P cpu ∧ ∃ cpu', cpu.tick = some cpu' := by
  obtain ⟨hp, cpu', ht, -⟩ := ha.goes_on sim.run sim.running
  exact ⟨hp, cpu', ht⟩

/-- The head of the reorder buffer is at the pc of `fakecpu`. -/
theorem Refines.head_eq (ref : Refines image s q) (sim : Simulates image s q cpu)
    (hc : s.commits = true) : s.rm.robs.head ∈ s.robs ∧ EntryOk s.head ∧ s.head.pc = cpu.pc := by
  have hm := head_mem ref.coherent.conserved.control hc
  have hw := sim.path.window (Latched.clear_of_commits hc)
  rw [robs_head ref.coherent.conserved.control hc] at hw
  exact ⟨hm, ref.coherent.entries.entry _ hm, hw.1⟩

theorem Refines.head_inst (ref : Refines image s q) (sim : Simulates image s q cpu)
    (hp : cpu.FetchesOriginal) (hc : s.commits = true) :
    s.head.inst = instDecode (memGetInst cpu.data cpu.pc) := by
  obtain ⟨hm, -, hpc⟩ := ref.head_eq sim hc
  have hd : cpu.data = q.memory image := congrArg Arch.data sim.arch
  exact (ref.fetched _ hm).inst_eq hp sim.executed hd hpc

/-- When an instruction retires, `fakecpu` executes it. -/
theorem Refines.step_simulates (ref : Refines image s q) (sim : Simulates image s q cpu)
    (ht : ∃ cpu', cpu.tick = some cpu')
    (hi : s.commits = true → s.head.inst = instDecode (memGetInst cpu.data cpu.pc))
    (st : Step s q p s' q') : ∃ cpu', Simulates image s' q' cpu' := by
  have co := ref.coherent
  have ctl := co.conserved.control
  have hhead := ref.operands.head_resolved ctl
  have harch := st.committed_eq ctl co.entries hhead
  obtain ⟨e, path⟩ := sim.path.step co ref.branches st
  cases hr : s.retires
  · have hret : q'.retired = q.retired := by simp [st.retired, Latched.retired, hr]
    rw [hr, if_neg Bool.false_ne_true] at harch
    have he : e = cpu.pc := by
      refine path.retired.end_unique ?_
      rw [hret]
      exact sim.path.retired
    refine ⟨cpu, ?_, sim.running, ?_, sim.arch.trans harch.symm, he ▸ path⟩
    · rw [hret]
      exact sim.run
    · rw [hret]
      exact sim.executed
  · have hret : q'.retired = q.retired ++ [s.head] := by simp [st.retired, Latched.retired, hr]
    have hcm := Latched.commits_of_retires hr
    obtain ⟨cpu', ht⟩ := ht
    obtain ⟨hm, hok, hpc⟩ := ref.head_eq sim hcm
    have hop : s.head.op ≠ .hcf := fun ho => by simp [Latched.retires, ho] at hr
    have hres := hhead hr
    rw [← sim.arch] at hres
    obtain ⟨h₁, h₂, h₃, h₄⟩ := hres.tick hok hpc (hi hcm) hop
      (ref.branches.ready _ hm (ready_of_commits hcm)) ht
    rw [hr, if_pos rfl, ← sim.arch] at harch
    have he : e = cpu'.pc := by
      have hw := path.retired
      rw [hret] at hw
      rw [h₄]
      exact hw.end_unique (sim.path.retired.concat hpc)
    refine ⟨cpu', ?_, h₂.trans sim.running, ?_, h₁.trans harch.symm, he ▸ path⟩
    · rw [hret, List.length_append, List.length_singleton]
      exact (FakeCpu.run_succ sim.run sim.running).trans ht
    · rw [hret, h₃, sim.executed, List.map_append]
      rfl

theorem Refines.step (ref : Refines image s q)
    (hsim : ∀ cpu, Simulates image s q cpu → (∃ cpu', cpu.tick = some cpu') ∧
      (s.commits = true → s.head.inst = instDecode (memGetInst cpu.data cpu.pc)))
    (links : s.TakesLinks p)
    (hpick : ∀ rs, s.loadPick = some rs → s.Foremost (robSlot (s.rm.rsPayload rs).dest))
    (st : Step s q p s' q') : Refines image s' q' := by
  have co := ref.coherent
  have ctl := co.conserved.control
  have so' := ref.stores.step ctl st
  have lo' := ref.loads.step co ref.stores st so' hpick
  obtain ⟨cpu, sim⟩ := ref.simulated
  exact
    { coherent := co.step st
      branches := ref.branches.step co st
      stores := so'
      loads := lo'
      operands := ref.operands.step co ref.stores ref.loads links st
      fetched := by
        cases hc : s.rm.robs.clear
        · exact st.fetched_from ctl ref.stores ref.loads so' lo' hc ref.fetched
        · intro slot hs
          simp [(st.quiet ctl hc).robs] at hs
      simulated := ref.step_simulates sim (hsim cpu sim).1 (hsim cpu sim).2 st }

/-- Operands taken of a JALR are its link. -/
def TakesLinks (o : Schedule) (c : Cpu) : Prop :=
  (latch c).TakesLinks (cpuPlainAt o c .instUnitTick)

instance {_ : WideShift} (o : Schedule) (c : Cpu) : Decidable (TakesLinks o c) :=
  inferInstanceAs (Decidable ((latch c).TakesLinks _))

section
variable (image : MemData) (garbage : ℤ → ℤ → ℤ) (hist : ℤ)

theorem refines_cpuCreate : Refines image (latch (cpuCreate image garbage hist))
    (cpuCreate image garbage hist).plain where
  coherent := coherent_cpuCreate image garbage hist
  branches := branches_cpuCreate image garbage hist
  stores := storesOk_cpuCreate image garbage hist
  loads := loadsOrdered_cpuCreate image garbage hist
  operands := operands_cpuCreate _ image garbage hist
  fetched := fun _ hs => by cases hs
  simulated := ⟨fakeCpuCreate image, rfl, rfl, rfl, rfl, onPath_cpuCreate image garbage hist⟩

theorem refines_of_cpuRun {os : List Schedule} {c : Cpu}
    (ha : (fakeCpuCreate image).Always FakeCpu.FetchesOriginal)
    (hr : cpuRun os (cpuCreate image garbage hist) = .ok c)
    (hw : RunAll (fun o c => PushesForemost o c ∧ TakesLinks o c) os
      (cpuCreate image garbage hist)) : Refines image (latch c) c.plain :=
  hw.induction (I := Refines image) (refines_cpuCreate image garbage hist)
    (fun ref h st => ref.step
      (fun _ sim => ⟨(sim.always ha).2, ref.head_inst sim (sim.always ha).1⟩) h.2
      (fun rs hp => h.1 rs hp) st) hr

/-- In runs that take links and push loads in order, the retired instructions are the
    first ones that `fakecpu` executes, with the same effects; when HCF stops the CPU,
    it is the next that `fakecpu` reaches, and the exit code is the same. -/
theorem refines_fakecpu {os : List Schedule} {c : Cpu}
    (ha : (fakeCpuCreate image).Always fun cpu => cpu.InRange ∧ cpu.FetchesOriginal)
    (hr : cpuRun os (cpuCreate image garbage hist) = .ok c)
    (hw : RunAll (fun o c => PushesForemost o c ∧ TakesLinks o c) os
      (cpuCreate image garbage hist)) :
    ∃ cpu, FakeCpu.run c.plain.retired.length (fakeCpuCreate image) = some cpu ∧
      cpu.executed = c.plain.retired.map RobPayload.effect ∧ cpu.hcf = false ∧
      (c.plain.hcf = true → cpu.tick = some { cpu with hcf := true } ∧
        regStoreGet (latch c) 10 = cpu.get 10) := by
  have hf : (fakeCpuCreate image).Always FakeCpu.FetchesOriginal := ha.imp fun _ h => h.2
  have ref := refines_of_cpuRun image garbage hist hf hr hw
  obtain ⟨cpu, sim⟩ := ref.simulated
  refine ⟨cpu, sim.run, sim.executed, sim.running, fun hh => ⟨?_, ?_⟩⟩
  · obtain ⟨hcm, ho⟩ := sim.path.halted hh
    obtain ⟨-, hok, -⟩ := ref.head_eq sim hcm
    have hi := ref.head_inst sim (sim.always hf).1 hcm
    have hop := hok.legal.robOp_hcf_iff.1 (hok.op.symm.trans ho)
    rw [hi] at hop
    simp [FakeCpu.tick, hop]
  · have hregs : cpu.regs = fun x => (latch c).rm.register x := congrArg Arch.regs sim.arch
    simp [regStoreGet, FakeCpu.get, hregs]

end

omit [WideShift] in
/-- After a branch that was predicted wrong. -/
theorem refines_fakecpu_branch : ∃ cpu, @FakeCpu.run .masked
    (bootCpu 15 branchProgram).plain.retired.length (fakeCpuCreate (imageOf branchProgram)) =
      some cpu ∧
    cpu.executed = (bootCpu 15 branchProgram).plain.retired.map RobPayload.effect ∧
    cpu.hcf = false ∧ ((bootCpu 15 branchProgram).plain.hcf = true →
      @FakeCpu.tick .masked cpu = some { cpu with hcf := true } ∧
        regStoreGet (latch (bootCpu 15 branchProgram)) 10 = cpu.get 10) :=
  @refines_fakecpu .masked (imageOf branchProgram) (fun _ _ => 0) 0 (bootTicks 15)
    (bootCpu 15 branchProgram) (@FakeCpu.always_of_reaches .masked _ _ 4 _ (by decide +kernel))
    (cpuRun_boot (by decide +kernel)) (by decide +kernel)

omit [WideShift] in
/-- The use of the link retires with the target of the JALR, which `fakecpu` does not
    write. -/
theorem refines_fakecpu_link :
    @FakeCpu.Always .masked (fun cpu => cpu.InRange ∧ cpu.FetchesOriginal)
      (fakeCpuCreate (imageOf linkProgram)) ∧
    @cpuRun .masked (bootTicks 10) (boot linkProgram) = .ok (bootCpu 10 linkProgram) ∧
    ∀ n cpu, @FakeCpu.run .masked n (fakeCpuCreate (imageOf linkProgram)) = some cpu →
      ¬(bootCpu 10 linkProgram).plain.retired.map RobPayload.effect <+: cpu.executed := by
  refine ⟨@FakeCpu.always_of_reaches .masked _ _ 4 _ (by decide +kernel),
    cpuRun_boot (by decide +kernel), fun n cpu hn => ?_⟩
  have hle : ∀ n ≤ 3, ∀ cpu ∈ @FakeCpu.run .masked n (fakeCpuCreate (imageOf linkProgram)),
      ¬(bootCpu 10 linkProgram).plain.retired.map RobPayload.effect <+: cpu.executed := by
    decide +kernel
  rcases Nat.le_total n 3 with h | h
  · exact hle n h cpu hn
  · obtain ⟨cpu', h'⟩ := Option.isSome_iff_exists.1
      (by decide +kernel : (@FakeCpu.run .masked 3
        (fakeCpuCreate (imageOf linkProgram))).isSome = true)
    have hc : ∀ cpu ∈ @FakeCpu.run .masked 3 (fakeCpuCreate (imageOf linkProgram)),
        cpu.hcf = true := by
      decide +kernel
    obtain ⟨m, rfl⟩ := Nat.exists_eq_add_of_le h
    rw [@FakeCpu.run_add_of_hcf .masked _ m _ _ h' (hc cpu' h')] at hn
    cases hn
    exact hle 3 (Nat.le_refl 3) cpu h'

end TomasuloCpu
