import TomasuloCpu.FakeRun
import TomasuloCpu.Liveness

set_option autoImplicit false

/-!
# The architectural state

Registers and memory are at any time what the retired instructions made them, up
to the stores that are on their way to memory. Instructions that were squashed,
or have not retired, leave no trace in them.
-/
namespace TomasuloCpu
open Clocked

namespace Arch

def init (image : MemData) : Arch := ⟨fun _ => 0, image⟩

def apply (a : Arch) : Retired → Arch
  | .write _ dest value => a.set dest value
  | .store _ addr value size => { a with data := applyStore a.data (addr, value, size) }
  | .jump _ => a

end Arch

/-- The stores that have retired and not reached memory, in order. -/
def pendingStores (s : Latched) (q : Plain) : List (Addr × Word × LsSize) :=
  q.inFlight.map s.storeIn ++ s.lsqStores

/-- Registers and memory once the pending stores are performed. -/
def archOf (s : Latched) (q : Plain) : Arch :=
  s.committed (applyStores q.data (pendingStores s q))

/-- A size that `_mem_set_sz` has a case for. -/
def Storable (size : LsSize) : Prop :=
  size = LsSize.byte ∨ size = LsSize.hword ∨ size = LsSize.word

instance (size : LsSize) : Decidable (Storable size) := inferInstanceAs (Decidable (_ ∨ _))

theorem memSetSz_isSome_iff {data : MemData} {addr : Addr} {value : Word} {size : LsSize} :
    (memSetSz data addr value size).isSome = true ↔ Storable size := by
  unfold memSetSz Storable
  dsimp only
  split_ifs with h₁ h₂ h₃ <;> simp [*]

def Retired.Storable : Retired → Prop
  | .store _ _ _ size => TomasuloCpu.Storable size
  | _ => True

def Retired.access : Retired → Option (Addr × LsSize)
  | .store _ addr _ size => some (addr, size)
  | _ => none

namespace FakeCpu

variable {cpu cpu' : FakeCpu} {n m : ℕ}

theorem writeReg_effect (inst : Inst) (value : Word) (nextPc : Addr) {P : Addr × LsSize → Prop} :
    ∃ e, (cpu.writeReg inst value nextPc).executed = cpu.executed ++ [e] ∧
      (cpu.writeReg inst value nextPc).arch = cpu.arch.apply e ∧ e.Storable ∧
      ∀ a ∈ e.access, P a :=
  ⟨_, rfl, arch_writeReg.1, trivial, fun _ h => by cases h⟩

variable [WideShift]

theorem execute_effect {inst : Inst} (h : cpu.execute inst = some cpu') :
    ∃ e, cpu'.executed = cpu.executed ++ [e] ∧ cpu'.arch = cpu.arch.apply e ∧ e.Storable ∧
      ∀ a ∈ e.access, inst.opcode = Opcode.store ∧
        a = (inst.immediate + cpu.get inst.rs1, inst.width) := by
  unfold execute at h
  split_ifs at h
  case pos => -- a load
    obtain ⟨v, -, rfl⟩ := Option.map_eq_some_iff.1 h
    exact writeReg_effect ..
  case pos => -- a store
    obtain ⟨data, hset, rfl⟩ := Option.map_eq_some_iff.1 h
    refine ⟨_, rfl, ?_, memSetSz_isSome_iff.1 (Option.isSome_of_mem hset), fun a ha => ?_⟩
    · simp [Arch.apply, arch, applyStore, hset]
    · cases ha
      exact ⟨‹_›, rfl⟩
  case pos => -- an operation with an immediate
    obtain ⟨v, -, rfl⟩ := Option.map_eq_some_iff.1 h
    exact writeReg_effect ..
  case pos =>
    obtain ⟨v, -, rfl⟩ := Option.map_eq_some_iff.1 h
    exact writeReg_effect ..
  case pos =>
    cases h
    exact writeReg_effect ..
  case pos =>
    cases h
    exact writeReg_effect ..
  case pos => -- a branch
    obtain ⟨v, -, rfl⟩ := Option.map_eq_some_iff.1 h
    exact ⟨_, rfl, rfl, trivial, fun _ h => by cases h⟩
  case pos =>
    cases h
    exact writeReg_effect ..
  case pos =>
    cases h
    exact writeReg_effect ..

theorem tick_effect (h : cpu.tick = some cpu') : cpu' = { cpu with hcf := true } ∨
    ∃ e, cpu'.executed = cpu.executed ++ [e] ∧ cpu'.arch = cpu.arch.apply e ∧ e.Storable ∧
      ∀ a ∈ e.access, a ∈ cpu.access := by
  unfold tick at h
  dsimp only at h
  split_ifs at h
  · cases h
    exact .inl rfl
  · obtain ⟨e, he, harch, hs, ha⟩ := execute_effect h
    refine .inr ⟨e, he, harch, hs, fun a hm => ?_⟩
    obtain ⟨hop, rfl⟩ := ha a hm
    rw [access, if_pos (.inr hop)]
    rfl

theorem run_induction {J : FakeCpu → Prop} (h0 : J cpu)
    (hstep : ∀ {cpu cpu'}, J cpu → tick cpu = some cpu' → J cpu')
    (h : run n cpu = some cpu') : J cpu' := by
  induction n generalizing cpu with
  | zero =>
    cases h
    exact h0
  | succ n ih =>
    rw [run] at h
    split_ifs at h
    · cases h
      exact h0
    · obtain ⟨cpu₁, ht, h⟩ := Option.bind_eq_some_iff.1 h
      exact ih (hstep h0 ht) h

theorem run_executed (h : run n cpu = some cpu') : cpu.executed <+: cpu'.executed := by
  refine run_induction (J := fun c => cpu.executed <+: c.executed) (List.prefix_refl _) ?_ h
  intro c c' hc ht
  rcases tick_effect ht with rfl | ⟨e, he, -⟩
  · exact hc
  · rw [he]
    exact hc.trans (List.prefix_append _ _)

theorem run_arch {a : Arch} (h : run n cpu = some cpu')
    (ha : cpu.arch = cpu.executed.foldl Arch.apply a) :
    cpu'.arch = cpu'.executed.foldl Arch.apply a := by
  refine run_induction (J := fun c => c.arch = c.executed.foldl Arch.apply a) ha ?_ h
  intro c c' hc ht
  rcases tick_effect ht with rfl | ⟨e, he, harch, -, -⟩
  · exact hc
  · rw [he, List.foldl_append, ← hc]
    exact harch

theorem run_storable (h : run n cpu = some cpu') (hs : ∀ e ∈ cpu.executed, e.Storable) :
    ∀ e ∈ cpu'.executed, e.Storable := by
  refine run_induction (J := fun c => ∀ e ∈ c.executed, e.Storable) hs ?_ h
  intro c c' hc ht
  rcases tick_effect ht with rfl | ⟨e, he, -, hstore, -⟩
  · exact hc
  · rw [he]
    exact List.forall_mem_append.2 ⟨hc, List.forall_mem_singleton.2 hstore⟩

theorem Always.executed_inside (ha : cpu.Always InRange) (h : run n cpu = some cpu')
    (hs : ∀ e ∈ cpu.executed, ∀ a ∈ e.access, a.1.toNat + lsBytes a.2 ≤ memSize) :
    ∀ e ∈ cpu'.executed, ∀ a ∈ e.access, a.1.toNat + lsBytes a.2 ≤ memSize := by
  refine ha.induction (J := fun c => ∀ e ∈ c.executed, ∀ a ∈ e.access,
    a.1.toNat + lsBytes a.2 ≤ memSize) hs ?_ h
  intro c c' hc hin ht
  rcases tick_effect ht with rfl | ⟨e, he, -, -, hacc⟩
  · exact hin
  · rw [he]
    exact List.forall_mem_append.2 ⟨hin, List.forall_mem_singleton.2 fun a hm =>
      hc.2 a (hacc a hm)⟩

theorem run_add (h : run n cpu = some cpu') : run (n + m) cpu = run m cpu' := by
  induction n generalizing cpu with
  | zero =>
    cases h
    rw [Nat.zero_add]
  | succ n ih =>
    rw [Nat.succ_add]
    rw [run] at h ⊢
    split_ifs at h ⊢ with hs
    · cases h
      exact (run_of_hcf hs).symm
    · obtain ⟨cpu₁, ht, h⟩ := Option.bind_eq_some_iff.1 h
      rw [ht, Option.bind_some]
      exact ih h

end FakeCpu

variable [WideShift] {s s' : Latched} {q p q' : Plain} {image : MemData}

omit [WideShift] in
theorem apply_effect {a : Arch} {data : RobPayload} (ok : EntryOk data) (ho : data.op ≠ .hcf) :
    a.apply data.effect =
      ⟨if 0 < data.dest then Function.update a.regs data.dest data.value else a.regs,
        data.store?.elim a.data (applyStore a.data)⟩ := by
  have hset : (data.op = .store ∨ data.op = .branch → data.dest ≠ -1) →
      a.set data.dest data.value =
        ⟨if 0 < data.dest then Function.update a.regs data.dest data.value else a.regs,
          a.data⟩ := by
    intro hd
    rw [Arch.set]
    by_cases h0 : data.dest = 0
    · simp [h0]
    · rw [if_neg h0, if_pos (regIds_pos (ok.dest_mem hd) h0)]
  have hstore : data.op ≠ .store → data.store? = none := fun h => by simp [RobPayload.store?, h]
  cases hop : data.op with
  | register =>
    rw [RobPayload.effect, hop, hstore (by simp [hop])]
    exact hset (by simp [hop])
  | jalr =>
    rw [RobPayload.effect, hop, hstore (by simp [hop])]
    exact hset (by simp [hop])
  | store =>
    rw [RobPayload.effect, hop, RobPayload.store?, if_pos hop, ok.dest_of_store hop]
    rfl
  | branch =>
    have hb := ok.legal.robOp_branch_iff.1 (ok.op.symm.trans hop)
    have hd : data.dest = -1 := by
      rw [ok.dest, if_neg (by simp [hasDest, ok.legal.format_of_branch hb])]
    rw [RobPayload.effect, hop, hstore (by simp [hop]), hd]
    rfl
  | hcf => exact absurd hop ho

/-- A tick changes the architectural state by what retires. -/
theorem Step.committed_apply (st : Step s q p s' q') (co : Coherent s) :
    s'.committed (q'.memory image) = s.retired.toList.foldl (fun a data => a.apply data.effect)
      (s.committed (q.memory image)) := by
  have ctl := co.conserved.control
  rw [Latched.committed, st.register_eq ctl co.entries, st.memory_step, Latched.retired]
  cases hr : s.retires
  · rfl
  · have hc := Latched.commits_of_retires hr
    have hne : s.head.op ≠ .hcf := by
      intro ho
      simp [Latched.retires, ho] at hr
    simp only [↓reduceIte, Option.toList_some, List.foldl_cons, List.foldl_nil, true_and]
    have hok : EntryOk s.head := co.entries.entry _ (head_mem ctl hc)
    exact (apply_effect (a := s.committed (q.memory image)) hok hne).symm

structure Precise (image : MemData) (s : Latched) (q : Plain) : Prop where
  data : q.data = applyStores image q.performed
  arch : s.committed (q.memory image) =
    (q.retired.map RobPayload.effect).foldl Arch.apply (Arch.init image)

theorem Precise.step (h : Precise image s q) (co : Coherent s) (st : Step s q p s' q') :
    Precise image s' q' where
  data := by
    rw [st.data, st.performed, h.data, applyStores, applyStores, applyStores, List.foldl_append]
  arch := by
    rw [st.committed_apply co, h.arch, st.retired, List.map_append, List.foldl_append,
      List.foldl_map, List.foldl_map]

omit [WideShift] in
theorem memory_of_pending (hd : q.data = applyStores image q.performed) (so : StoresOk s q) :
    applyStores q.data (pendingStores s q) = q.memory image := by
  rw [hd, Plain.memory, ← so.order, pendingStores, applyStores, applyStores, applyStores,
    List.append_assoc, ← List.foldl_append]

omit [WideShift] in
theorem Precise.archOf_eq (h : Precise image s q) (so : StoresOk s q) :
    archOf s q = (q.retired.map RobPayload.effect).foldl Arch.apply (Arch.init image) := by
  rw [archOf, memory_of_pending h.data so, h.arch]

section
variable (image : MemData) (garbage : ℤ → ℤ → ℤ) (hist : ℤ) {os : List Schedule} {c : Cpu}

theorem precise_of_cpuRun (hr : cpuRun os (cpuCreate image garbage hist) = .ok c) :
    Precise image (latch c) c.plain := by
  refine (cpuRun_induction (I := fun s q => Coherent s ∧ Precise image s q)
    ⟨coherent_cpuCreate image garbage hist, rfl, rfl⟩ (fun h st => ?_) hr).2
  exact ⟨h.1.step st, h.2.step h.1 st⟩

/-- The state is precise at every tick of every run: registers and memory, once the
    stores that wait are performed, are what the retired instructions made of them. -/
theorem precise_state (hr : cpuRun os (cpuCreate image garbage hist) = .ok c) :
    archOf (latch c) c.plain =
      (c.plain.retired.map RobPayload.effect).foldl Arch.apply (Arch.init image) :=
  (precise_of_cpuRun image garbage hist hr).archOf_eq (storesOk_of_cpuRun image garbage hist hr)

/-- Whenever the CPU has retired what `fakecpu` has executed, both have the same
    registers and, once the stores that wait are performed, the same memory. -/
theorem state_of_executed (hr : cpuRun os (cpuCreate image garbage hist) = .ok c) {n : ℕ}
    {cpu : FakeCpu} (hf : FakeCpu.run n (fakeCpuCreate image) = some cpu)
    (he : c.plain.retired.map RobPayload.effect = cpu.executed) :
    (∀ x, (latch c).rm.register x = cpu.regs x) ∧
      applyStores c.plain.data (pendingStores (latch c) c.plain) = cpu.data := by
  have h := (precise_of_cpuRun image garbage hist hr).archOf_eq
    (storesOk_of_cpuRun image garbage hist hr)
  have hcpu : cpu.arch = cpu.executed.foldl Arch.apply (Arch.init image) :=
    FakeCpu.run_arch hf rfl
  rw [he, ← hcpu] at h
  exact ⟨fun x => congrFun (congrArg Arch.regs h) x, congrArg Arch.data h⟩

end

omit [WideShift] in
/-- A store has retired and waits in the load-store queue. -/
theorem precise_state_three :
    archOf (latch (bootCpu 4 threeStoresProgram)) (bootCpu 4 threeStoresProgram).plain =
      ((bootCpu 4 threeStoresProgram).plain.retired.map RobPayload.effect).foldl Arch.apply
        (Arch.init (imageOf threeStoresProgram)) :=
  @precise_state .masked (imageOf threeStoresProgram) (fun _ _ => 0) 0 (bootTicks 4) _
    (cpuRun_boot (by decide +kernel))

def fakeBoot (n : ℕ) (program : List Word) : FakeCpu :=
  (@FakeCpu.run .masked n (fakeCpuCreate (imageOf program))).getD (fakeCpuCreate (imageOf program))

omit [WideShift] in
theorem state_of_executed_three :
    (∀ x, (latch (bootCpu 4 threeStoresProgram)).rm.register x =
        (fakeBoot 2 threeStoresProgram).regs x) ∧
      applyStores (bootCpu 4 threeStoresProgram).plain.data
          (pendingStores (latch (bootCpu 4 threeStoresProgram))
            (bootCpu 4 threeStoresProgram).plain) =
        (fakeBoot 2 threeStoresProgram).data :=
  @state_of_executed .masked (imageOf threeStoresProgram) (fun _ _ => 0) 0 (bootTicks 4) _
    (cpuRun_boot (by decide +kernel)) 2 (fakeBoot 2 threeStoresProgram) (by rfl)
    (by decide +kernel)

end TomasuloCpu
