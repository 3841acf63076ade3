import TomasuloCpu.Faults
import TomasuloCpu.Predictor
import TomasuloCpu.Refinement

set_option autoImplicit false

/-!
# The programs agree

A program that `fakecpu` runs without a failed assertion keeps neither CPU
waiting: what the one executes, the other retires in time, and both builds of
`main` print the same.
-/
namespace TomasuloCpu
open Clocked

theorem toInt_and_mask (x : Word) :
    toString (x &&& resultMask).toInt = toString (x &&& resultMask).toNat := by
  have hlt : (x &&& resultMask).toNat < 256 := toNat_and_lt x
  rw [BitVec.toInt_eq_toNat_of_lt (by omega)]
  rfl

variable [WideShift] {s : Latched} {q : Plain} {image : MemData} {cpu : FakeCpu}

theorem Simulates.lt_of_hcf (sim : Simulates image s q cpu) {n : ℕ} {cpu' : FakeCpu}
    (hrun : FakeCpu.run n (fakeCpuCreate image) = some cpu') (hh : cpu'.hcf = true) :
    q.retired.length < n := by
  by_contra hle
  obtain ⟨k, hk⟩ := Nat.exists_eq_add_of_le (Nat.le_of_not_lt hle)
  have hrest := FakeCpu.run_add (m := k) hrun
  rw [← hk, sim.run, FakeCpu.run_of_hcf hh, Option.some.injEq] at hrest
  have hrunning := sim.running
  rw [hrest, hh] at hrunning
  cases hrunning

section
variable (ref : Refines image s q) (sim : Simulates image s q cpu) (hp : cpu.FetchesOriginal)
include ref sim hp

theorem Refines.tick_of_hcf (hh : q.hcf = true) : cpu.tick = some { cpu with hcf := true } := by
  obtain ⟨hc, ho⟩ := sim.path.halted hh
  obtain ⟨-, hok, -⟩ := ref.head_eq sim hc
  have hop := hok.legal.robOp_hcf_iff.1 (hok.op.symm.trans ho)
  rw [ref.head_inst sim hp hc] at hop
  simp [FakeCpu.tick, hop]

theorem Refines.regs_of_hcf {n : ℕ} {cpu' : FakeCpu}
    (hrun : FakeCpu.run n (fakeCpuCreate image) = some cpu') (hh' : cpu'.hcf = true)
    (hh : q.hcf = true) : cpu'.regs = fun x => s.rm.register x := by
  have hnext : FakeCpu.run (q.retired.length + 1) (fakeCpuCreate image) =
      some { cpu with hcf := true } :=
    (FakeCpu.run_succ sim.run sim.running).trans (ref.tick_of_hcf sim hp hh)
  have h₁ := FakeCpu.run_add_of_hcf (m := q.retired.length + 1) hrun hh'
  have h₂ := FakeCpu.run_add_of_hcf (m := n) hnext rfl
  rw [Nat.add_comm, h₂, Option.some.injEq] at h₁
  rw [← h₁]
  exact congrArg Arch.regs sim.arch

/-- Where the CPU waits at an unknown word, `fakecpu` fails. -/
theorem Refines.not_stuck (ht : ∃ cpu', cpu.tick = some cpu') : ¬s.Stuck q := by
  rintro ⟨hc, he, hop⟩
  have hpc := sim.path.window hc
  rw [he] at hpc
  -- the word that waits, as if it were an entry
  let data : RobPayload :=
    { s.head with pc := s.rm.pc, inst := instDecode (memGetInst q.data s.rm.pc) }
  have hfetched : q.Fetched image data := by
    refine ⟨q.performed, ?_, by rw [← ref.loads.data]⟩
    rw [← ref.stores.order, List.append_assoc]
    exact List.prefix_append _ _
  have hi := hfetched.inst_eq hp sim.executed (congrArg Arch.data sim.arch) hpc.symm
  have hunimp : (instDecode (memGetInst cpu.data cpu.pc)).op = InstOp.unimp := by
    rw [← hi]
    exact hop
  obtain ⟨cpu', ht⟩ := ht
  simp [FakeCpu.tick, hunimp, InstOp.unimp, InstOp.hcf] at ht

end

/-- A retired store is one that `fakecpu` has executed. -/
theorem Refines.executed_of_store (ref : Refines image s q) {w : Addr × Word × LsSize}
    (hw : w ∈ q.retiredStores) : ∃ cpu pc, Simulates image s q cpu ∧
      .store pc w.1 w.2.1 w.2.2 ∈ cpu.executed := by
  obtain ⟨cpu, sim⟩ := ref.simulated
  obtain ⟨data, hd, hw⟩ := List.mem_filterMap.1 hw
  rw [RobPayload.store?] at hw
  split_ifs at hw with ho
  cases hw
  refine ⟨cpu, data.pc, sim, ?_⟩
  rw [sim.executed]
  exact List.mem_map.2 ⟨data, hd, by rw [RobPayload.effect, ho]⟩

theorem Refines.storable (ref : Refines image s q) : q.Storable := by
  intro w hw
  obtain ⟨cpu, pc, sim, hm⟩ := ref.executed_of_store hw
  exact FakeCpu.run_storable sim.run (fun e he => by cases he) _ hm

theorem Refines.storesInside (ref : Refines image s q)
    (ha : (fakeCpuCreate image).Always FakeCpu.InRange) : q.StoresInside := by
  intro w hw
  obtain ⟨cpu, pc, sim, hm⟩ := ref.executed_of_store hw
  exact ha.executed_inside sim.run (fun e he => by cases he) _ hm _ rfl

theorem RunAll.left {P : Schedule → Cpu → Prop} {os os' : List Schedule} {c : Cpu}
    (h : RunAll P (os ++ os') c) : RunAll P os c := by
  induction os generalizing c with
  | nil => trivial
  | cons o os ih => exact ⟨h.1, fun c' hc => ih (h.2 c' hc)⟩

section
variable {garbage : ℤ → ℤ → ℤ} {hist : ℤ} {os : List Schedule} {m : Machine} {n : ℕ}

theorem simulates_of_cpuLoop (ha : (fakeCpuCreate image).Always FakeCpu.FetchesOriginal)
    (hw : LoopAll (fun o c => PushesForemost o c ∧ TakesLinks o c) os
      (cpuCreate image garbage hist))
    (hl : cpuLoop os (machineCreate image garbage hist) = .ok m)
    (hn : n * commitBound ≤ os.length) :
    Refines image (latch m.cpu) m.cpu.plain ∧
      (∃ cpu, Simulates image (latch m.cpu) m.cpu.plain cpu) ∧
      (n ≤ m.cpu.plain.retired.length ∨ m.cpu.plain.hcf = true) := by
  obtain ⟨os₁, os₂, rfl, hr, hall, -, hend⟩ := run_of_cpuLoop hw hl
  have ref := refines_of_cpuRun image garbage hist ha hr hall
  refine ⟨ref, ref.simulated, ?_⟩
  rcases hend with rfl | hh
  · rw [List.append_nil] at hn
    obtain ⟨os₁, os₂, c, rfl, h₁, h₂, hlen | hh | hs⟩ :=
      commits_of_live (live_cpuCreate image garbage hist) n hr hn
    · exact .inl (((Nat.le_add_left _ _).trans hlen).trans (retired_mono h₂).length_le)
    · exact .inr (hcf_mono hh h₂)
    · have ref' := refines_of_cpuRun image garbage hist ha h₁ hall.left
      obtain ⟨cpu, sim⟩ := ref'.simulated
      exact absurd hs (ref'.not_stuck sim (sim.always ha).1 (sim.always ha).2)
  · exact .inr hh

/-- What the loop leaves to be read is what the CPU holds. -/
theorem read_of_cpuLoop (hl : cpuLoop os (machineCreate image garbage hist) = .ok m)
    (hh : m.cpu.plain.hcf = true) :
    (fun x => m.read.rm.register x) = fun x => (latch m.cpu).rm.register x := by
  have h := cpuLoop_induction (J := fun m => Live (latch m.cpu) m.cpu.plain ∧
    (m.cpu.plain.hcf = true →
      (fun x => m.read.rm.register x) = fun x => (latch m.cpu).rm.register x))
    ⟨live_cpuCreate image garbage hist, fun h => by cases h⟩ ?_ hl
  · exact h.2 hh
  · rintro o m c ⟨live, -⟩ hrun ht
    obtain ⟨p, st⟩ := step_of_cpuTick ht
    refine ⟨live.step st, fun hc => ?_⟩
    have hhcf : (latch m.cpu).head.op = .hcf := by
      have h := st.hcf
      rw [hc, hrun, Bool.false_or] at h
      exact of_decide_eq_true (Bool.and_eq_true_iff.1 h.symm).2
    have hr : (latch m.cpu).retires = false := by simp [Latched.retires, hhcf]
    have heq := st.register_eq live.coherent.conserved.control live.coherent.entries
    rw [if_neg (by simp [hr])] at heq
    exact heq.symm

/-- What `fakecpu` executes in `n` ticks retires within `n` times `commitBound`
    iterations of the loop, unless it ends before that at the same point. -/
theorem keeps_up (ha : (fakeCpuCreate image).Always FakeCpu.FetchesOriginal)
    (hw : LoopAll (fun o c => PushesForemost o c ∧ TakesLinks o c) os
      (cpuCreate image garbage hist))
    (hl : cpuLoop os (machineCreate image garbage hist) = .ok m)
    (hn : n * commitBound ≤ os.length) :
    ∃ cpu, FakeCpu.run n (fakeCpuCreate image) = some cpu ∧
      cpu.executed <+: m.cpu.plain.retired.map RobPayload.effect := by
  obtain ⟨ref, ⟨cpu', sim⟩, hend⟩ := simulates_of_cpuLoop ha hw hl hn
  obtain ⟨cpu, hrun, -⟩ := ha n
  refine ⟨cpu, hrun, ?_⟩
  rw [← sim.executed]
  rcases Nat.le_total n m.cpu.plain.retired.length with hle | hle
  · obtain ⟨k, hk⟩ := Nat.exists_eq_add_of_le hle
    have hrest := FakeCpu.run_add (m := k) hrun
    rw [← hk, sim.run] at hrest
    exact FakeCpu.run_executed hrest.symm
  · -- `fakecpu` comes to HCF there and executes nothing more
    obtain ⟨k, rfl⟩ := Nat.exists_eq_add_of_le hle
    have hrest := FakeCpu.run_add (m := k) sim.run
    rw [hrun] at hrest
    cases k with
    | zero =>
      cases hrest
      exact List.prefix_refl _
    | succ k =>
      have hh : m.cpu.plain.hcf = true := hend.resolve_left (by omega)
      have ht := ref.tick_of_hcf sim (sim.always ha).1 hh
      rw [FakeCpu.run, if_neg (by simp [sim.running]), ht, Option.bind_some,
        FakeCpu.run_of_hcf rfl] at hrest
      cases hrest
      exact List.prefix_refl _

omit [WideShift] in
/-- What follows the branch that is not taken is executed and retires. -/
theorem keeps_up_branch : ∃ cpu,
    @FakeCpu.run .masked 3 (fakeCpuCreate (imageOf branchProgram)) = some cpu ∧
      cpu.executed <+: (loopMachine 672 (bootMachine 0 branchProgram)).cpu.plain.retired.map
        RobPayload.effect :=
  @keeps_up .masked (imageOf branchProgram) (fun _ _ => 0) 0 (bootTicks 672)
    (loopMachine 672 (bootMachine 0 branchProgram)) 3
    (@FakeCpu.always_of_reaches .masked _ _ 4 _ (by decide +kernel)) (by decide +kernel)
    (cpuLoop_boot (by decide +kernel)) (by decide +kernel)

/-- What is known before every tick of a loop that takes links and pushes loads in order. -/
structure Runs (image : MemData) (bp : BranchPredictor) (c : Cpu) : Prop where
  refines : Refines image (latch c) c.plain
  live : Live (latch c) c.plain
  trained : Trained bp (latch c) c.plain

section
variable (ha : (fakeCpuCreate image).Always FakeCpu.FetchesOriginal)
  (hw : LoopAll (fun o c => PushesForemost o c ∧ TakesLinks o c) os
    (cpuCreate image garbage hist))
include ha hw

theorem loopAll_runs : LoopAll (fun o c => Runs image (bpCreate garbage hist) c ∧
    PushesForemost o c ∧ TakesLinks o c) os (cpuCreate image garbage hist) := by
  refine hw.invariant ⟨refines_cpuCreate image garbage hist, live_cpuCreate image garbage hist,
    trained_cpuCreate image garbage hist⟩ ?_
  rintro o c c' ⟨ref, live, trained⟩ ⟨hpush, hlinks⟩ ht
  have st := (Tick.of_cpuTick ht).step o.listeners_perm
  exact
    { refines := ref.step
        (fun _ sim => ⟨(sim.always ha).2, ref.head_inst sim (sim.always ha).1⟩) hlinks
        (fun rs hp => hpush rs hp) st
      live := live.step st
      trained := trained.step ref.coherent st (bp_of_cpuTick ht) (cpuPlainAt_bp _) }

/-- Nothing but an assertion ends the loop before HCF. -/
theorem error_of_cpuLoop {f : Fault}
    (hl : cpuLoop os (machineCreate image garbage hist) = .error f) : f = .assertion := by
  refine (loopAll_runs ha hw).error (E := fun f => f = .assertion) ?_ hl
  rintro o c f ⟨run, hpush, -⟩ ht
  exact (error_of_cpuTick run.live
    (pushesApart_of_foremost run.refines.coherent.conserved hpush) ht).1

theorem cpuLoop_of_always (hd : LoopAll DispatchesExecutable os (cpuCreate image garbage hist)) :
    ∃ m, cpuLoop os (machineCreate image garbage hist) = .ok m := by
  have hall := (loopAll_runs ha hw).and hd
  refine (hall.invariant (I := fun c => Accepting (latch c))
    (accepting_cpuCreate image garbage hist) ?_).exists_ok ?_
  · rintro o c c' acc ⟨⟨run, -, -⟩, hd⟩ ht
    have co := run.refines.coherent
    exact acc.step co.conserved co.entries ((Tick.of_cpuTick ht).step o.listeners_perm) hd
  · rintro o c ⟨acc, ⟨run, hpush, -⟩, -⟩
    have inv := run.refines.coherent.conserved
    exact cpuTick_passes run.live (pushesApart_of_foremost inv hpush)
      (acc.not_aborts inv run.refines.coherent.entries o)
      (run.refines.stores.not_storesUnknown run.refines.storable)

end

/-- Where fetch and loads are inside memory, all accesses are inside their bounds. -/
theorem loopAll_accesses (hh : InTable hist)
    (ha : (fakeCpuCreate image).Always fun cpu => cpu.InRange ∧ cpu.FetchesOriginal)
    (hw : LoopAll (fun o c => PushesForemost o c ∧ TakesLinks o c) os
      (cpuCreate image garbage hist))
    (hin : LoopAll (fun _ c => (latch c).ReadsInside) os (cpuCreate image garbage hist)) :
    LoopAll AccessesInside os (cpuCreate image garbage hist) := by
  refine ((loopAll_runs (ha.imp fun _ h => h.2) hw).and hin).imp ?_
  rintro o c ⟨⟨⟨ref, live, trained⟩, -⟩, hreads⟩
  exact ⟨hreads, ref.stores.storesInside (ref.storesInside (ha.imp fun _ h => h.1)),
    trained.predictsInside live.coherent.conserved.control hh (cpuPlainAt_bp _)⟩

/-- A program that `fakecpu` brings to HCF in `ticks` ticks ends on the CPU within
    `ticks` times `commitBound` iterations and both builds print the same, unless an
    assertion fails, which takes a word that is not executable. Where fetch and loads are
    inside memory, so is every access. -/
theorem main_agrees {unset : List Byte → Word} {k ticks : ℕ} {stdin : List Byte} {loader : Loader}
    {text : String} (hh : InTable hist) (hload : readToMemory unset k stdin = some (.ok loader))
    (hf : fakeMain unset k ticks stdin = some (.ok text))
    (ha : (fakeCpuCreate loader.data).Always fun cpu => cpu.InRange ∧ cpu.FetchesOriginal)
    (hw : LoopAll (fun o c => PushesForemost o c ∧ TakesLinks o c) os
      (cpuCreate loader.data garbage hist))
    (hin : LoopAll (fun _ c => (latch c).ReadsInside) os (cpuCreate loader.data garbage hist))
    (hn : ticks * commitBound ≤ os.length) :
    LoopAll AccessesInside os (cpuCreate loader.data garbage hist) ∧
    (LoopAll DispatchesExecutable os (cpuCreate loader.data garbage hist) →
      cpuMain unset garbage hist k os stdin = some (.ok text)) ∧
    (cpuMain unset garbage hist k os stdin = some (.ok text) ∨
      cpuMain unset garbage hist k os stdin = some (.error .assertion)) := by
  refine ⟨loopAll_accesses hh ha hw hin, ?_⟩
  have ha := ha.imp fun _ h => h.2
  simp only [cpuMain, fakeMain, hload] at hf ⊢
  cases hl : cpuLoop os (machineCreate loader.data garbage hist) with
  | error f =>
    obtain rfl := error_of_cpuLoop ha hw hl
    refine ⟨fun hd => ?_, .inr rfl⟩
    obtain ⟨m, hm⟩ := cpuLoop_of_always ha hw hd
    rw [hl] at hm
    cases hm
  | ok m =>
    suffices h : (if m.cpu.plain.hcf then some (.ok (writeResult m.read)) else none) =
        some (Except.ok (ε := Fault) text) from ⟨fun _ => h, .inl h⟩
    cases hrun : FakeCpu.run ticks (fakeCpuCreate loader.data) with
    | none => simp [hrun] at hf
    | some cpu' =>
      rw [hrun] at hf
      dsimp only at hf ⊢
      split_ifs at hf with hh'
      obtain ⟨ref, ⟨cpu, sim⟩, hend⟩ := simulates_of_cpuLoop ha hw hl hn
      have hlt := sim.lt_of_hcf hrun hh'
      have hhcf : m.cpu.plain.hcf = true := hend.resolve_left (by omega)
      have hread := read_of_cpuLoop hl hhcf
      have hregs := ref.regs_of_hcf sim (sim.always ha).1 hrun hh' hhcf
      have hget : regStoreGet m.read resultRegId = m.read.rm.register 10 := rfl
      cases hf
      rw [hregs, ← hread, if_pos hhcf, writeResult, hget, ← toInt_and_mask]
      rfl

end

/-- The image `@0 13 05 70 00 13 05 f0 0f`: 7 into `a0`, then HCF. -/
def resultInput : List Byte :=
  [0x40, 0x30, 0x20, 0x31, 0x33, 0x20, 0x30, 0x35, 0x20, 0x37, 0x30, 0x20, 0x30, 0x30, 0x20,
    0x31, 0x33, 0x20, 0x30, 0x35, 0x20, 0x66, 0x30, 0x20, 0x30, 0x66, 0x0a]

def resultLoader : Loader :=
  match readToMemory (fun _ => 0) 20 resultInput with
  | some (.ok loader) => loader
  | _ => ⟨[], fun _ => 0, []⟩

omit [WideShift] in
theorem main_agrees_result :
    @cpuMain .masked (fun _ => 0) (fun _ _ => 0) 0 20 (bootTicks 448) resultInput =
      some (.ok "7\n") :=
  (@main_agrees .masked (fun _ _ => 0) 0 (bootTicks 448) (fun _ => 0) 20 2 resultInput resultLoader
    "7\n" (by decide) (by rfl) (by decide +kernel)
    (@FakeCpu.always_of_reaches .masked _ _ 2 _ (by decide +kernel)) (by decide +kernel)
    (by decide +kernel) (by decide +kernel)).2.1 (by decide +kernel)

end TomasuloCpu
