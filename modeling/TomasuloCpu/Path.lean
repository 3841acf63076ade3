import TomasuloCpu.Dataflow
import TomasuloCpu.Library.Walk
import TomasuloCpu.Squash

set_option autoImplicit false

/-!
# Control flow

The entries of the reorder buffer follow the predictions, the retired ones the
resolved results, and a misprediction sends fetch to where these differ.
-/
namespace TomasuloCpu
open Clocked Walks

namespace RobPayload
variable (data : RobPayload)

def predictedNext : Addr :=
  if data.inst.opcode = Opcode.jalr then data.predictedAddr
  else if data.inst.opcode = Opcode.jal then signedAdd data.pc data.inst.immediate
  else if data.inst.opcode = Opcode.branch ∧ data.predictedTake.take then
    signedAdd data.pc data.inst.immediate
  else data.pc + instSize

def next : Addr :=
  if data.inst.opcode = Opcode.jalr then data.addr &&& ~~~(1 : Word)
  else if data.inst.opcode = Opcode.jal then data.pc + data.inst.immediate
  else if data.inst.opcode = Opcode.branch ∧ data.value = 1 then data.pc + data.inst.immediate
  else data.pc + 4

variable {data}

theorem predictedNext_of_branch (h : data.inst.opcode = Opcode.branch) : data.predictedNext =
    if data.predictedTake.take then data.pc + data.inst.immediate else data.pc + 4 := by
  have h₁ : Opcode.branch ≠ Opcode.jalr := by decide
  have h₂ : Opcode.branch ≠ Opcode.jal := by decide
  simp [predictedNext, h, h₁, h₂, signedAdd, instSize]

theorem next_of_branch (h : data.inst.opcode = Opcode.branch) : data.next =
    if data.value = 1 then data.pc + data.inst.immediate else data.pc + 4 := by
  have h₁ : Opcode.branch ≠ Opcode.jalr := by decide
  have h₂ : Opcode.branch ≠ Opcode.jal := by decide
  simp [next, h, h₁, h₂]

end RobPayload

def Bit (w : Word) : Prop := w = 0 ∨ w = 1

theorem boolWord_bit (b : Bool) : Bit (boolWord b) := by
  cases b
  · exact .inl rfl
  · exact .inr rfl

theorem aluExecute_bit [WideShift] {op : AluOp} {v₁ v₂ r : Word} (hop : 16 ≤ op.toNat)
    (h : aluExecute op v₁ v₂ = some r) : Bit r := by
  have hne : ∀ c : AluOp, c.toNat < 16 → op ≠ c := by
    rintro c hc rfl
    omega
  rw [aluExecute, if_neg (hne _ (by decide)), if_neg (hne _ (by decide)),
    if_neg (hne _ (by decide)), if_neg (hne _ (by decide)), if_neg (hne _ (by decide)),
    if_neg (hne _ (by decide)), if_neg (hne _ (by decide)), if_neg (hne _ (by decide)),
    if_neg (hne _ (by decide)), if_neg (hne _ (by decide))] at h
  split_ifs at h <;> (cases h; exact boolWord_bit _)

theorem EntryOk.next_of_predicted {data : RobPayload} (h : EntryOk data)
    (hb : data.op = .branch → Bit data.value) (hm : (data.op = .branch ∨ data.op = .jalr) →
      robIsMispredicted data = false) : data.next = data.predictedNext := by
  have hj := h.legal.robOp_jalr_iff
  have hbr := h.legal.robOp_branch_iff
  rw [← h.op] at hj hbr
  by_cases hjalr : data.inst.opcode = Opcode.jalr
  · have hm := hm (.inr (hj.2 hjalr))
    simp only [robIsMispredicted, hj.2 hjalr, reduceCtorEq, ↓reduceIte, bne_eq_false_iff_eq] at hm
    simp [RobPayload.next, RobPayload.predictedNext, hjalr, hm]
  · by_cases hbranch : data.inst.opcode = Opcode.branch
    · have hm := hm (.inl (hbr.2 hbranch))
      have hbit := hb (hbr.2 hbranch)
      simp only [robIsMispredicted, hbr.2 hbranch, ↓reduceIte, bne_eq_false_iff_eq] at hm
      rw [RobPayload.next_of_branch hbranch, RobPayload.predictedNext_of_branch hbranch, ← hm]
      cases data.predictedTake.take <;> simp [boolWord]
    · simp [RobPayload.next, RobPayload.predictedNext, hjalr, hbranch, signedAdd, instSize]

/-- A misprediction is corrected to the successor. -/
theorem EntryOk.next_of_mispredicted {data : RobPayload} (h : EntryOk data)
    (hb : data.op = .branch → Bit data.value) (ho : data.op = .branch ∨ data.op = .jalr)
    (hm : robIsMispredicted data = true) : data.next = robAddr data := by
  have hj := h.legal.robOp_jalr_iff
  have hbr := h.legal.robOp_branch_iff
  rw [← h.op] at hj hbr
  rcases ho with ho | ho
  · have hbranch := hbr.1 ho
    have hfall := h.fallback ho
    simp only [robIsMispredicted, ho, ↓reduceIte, bne_iff_ne, ne_eq] at hm
    rw [RobPayload.next_of_branch hbranch, robAddr, if_pos ho, hfall]
    cases ht : data.predictedTake.take <;> rcases hb ho with hv | hv <;>
      simp_all [boolWord, signedAdd, instSize]
  · simp [robAddr, ho, RobPayload.next, hj.1 ho]

abbrev Latched.entryAt (s : Latched) (id : RobId) : RobPayload := s.rm.robPayload (robSlot id)

/-- The results of branches are bits. -/
structure Branches (s : Latched) : Prop where
  flow : Flow s (fun t => (s.entryAt t.baseMsg.rob).op = .branch → 16 ≤ t.op.toNat)
    (fun m => (s.entryAt m.rob).op = .branch → Bit m.result)
    (fun l => (s.entryAt l.baseMsg.rob).op ≠ .branch)
    (fun r => (s.entryAt r.baseMsg.rob).op ≠ .branch)
  ready : ∀ slot ∈ s.robs, s.rm.robReady slot = true → (s.rm.robPayload slot).op = .branch →
    Bit (s.rm.robPayload slot).value

theorem stationAluOp_branch {inst : Inst} (h : Legal inst) (hb : inst.opcode = Opcode.branch) :
    16 ≤ (stationAluOp inst).toNat := by
  have hop : inst.op ≠ InstOp.hcf := fun ho => by
    have := (h.opcode_of_hcf ho).symm.trans hb
    exact absurd this (by decide)
  have hf := h.format_of_branch hb
  have hj : Opcode.branch ≠ Opcode.jalr := by decide
  simp only [stationAluOp, hb, hf, hj, reduceCtorEq, or_self, ↓reduceIte, instAluOp, hop,
    BitVec.toNat_or]
  exact Nat.right_le_or

variable [WideShift] {s s' : Latched} {q p q' : Plain}

section
variable (br : Branches s) (co : Coherent s) (st : Step s q p s' q')
include br co st

theorem Branches.step_flow :
    Flow s' (fun t => (s'.entryAt t.baseMsg.rob).op = .branch → 16 ≤ t.op.toNat)
      (fun m => (s'.entryAt m.rob).op = .branch → Bit m.result)
      (fun l => (s'.entryAt l.baseMsg.rob).op ≠ .branch)
      (fun r => (s'.entryAt r.baseMsg.rob).op ≠ .branch) := by
  have inv := co.conserved
  have hop : ∀ m : CdbMessage, m.key ∈ s.carriers →
      (s'.entryAt m.rob).op = (s.entryAt m.rob).op := fun m hk =>
    (st.robPayload_same inv.control (inv.mem_open hk).1).op
  have hkind : ∀ {rs}, rs ∈ stations → s.rm.rsBusy rs = true → EntryOk (s.entryOf rs) ∧
      StationOk rs (s.rm.rsPayload rs) (s.entryOf rs).inst (s.entryOf rs).pc := fun hr hb =>
    ⟨co.entries.entry _ (inv.rs_open hr hb).1, co.entries.station _ hr hb⟩
  refine br.flow.advance inv st ?_ (fun a ha hb ht result he ho => aluExecute_bit (ht ho) he) ?_
    (fun _ h => h) (fun _ _ h => h) (fun i _ hr msg hm ho => ?_) (fun t hk h => ?_)
    (fun m hk h => ?_) (fun l hk h => ?_) (fun r hk h => ?_)
  · intro a rs hs ho
    obtain ⟨hr, hb⟩ := freed_busy (mem_freed.2 (.inl ⟨a, aluFrees_of_starts hs⟩))
    obtain ⟨he, hst⟩ := hkind hr hb
    have hbr := he.legal.robOp_branch_iff.1 (he.op.symm.trans ho)
    change 16 ≤ (s.rm.rsPayload rs).opAlu.toNat
    rw [hst.opAlu]
    exact stationAluOp_branch he.legal hbr
  · intro rs hs ho
    obtain ⟨hr, hb⟩ := freed_busy (mem_freed.2 (.inr (.inl hs)))
    obtain ⟨he, hst⟩ := hkind hr hb
    have hbr := he.legal.robOp_branch_iff.1 (he.op.symm.trans ho)
    have hl : instType _ = .loadBuffer := rsVec_disjoint hst.kind (loadPick_spec hs).1
    exact absurd (hbr.symm.trans (he.legal.instType_load_iff.1 hl)) (by decide)
  · obtain ⟨v, -, rfl⟩ := Option.map_eq_some_iff.1 hm
    exact absurd ho hr
  · rw [hop _ hk]
    exact h
  · rw [hop _ hk]
    exact h
  · rw [hop _ hk]
    exact h
  · rw [hop _ hk]
    exact h

theorem Branches.step : Branches s' where
  flow := br.step_flow co st
  ready := fun slot hs hr ho => by
    have inv := co.conserved
    cases hc : s.rm.robs.clear
    · obtain ⟨hm, h | ⟨-, msg, hd, he, h⟩ | ⟨-, rs, hf, rfl, h⟩⟩ := inv.ready_cases st hc hs hr
      · rw [h.2] at ho ⊢
        exact br.ready slot hm h.1 ho
      · have hop : (s.rm.robPayload slot).op = .branch :=
          (st.robPayload_same inv.control hm).op.symm.trans ho
        have hbit := br.flow.bus msg (mem_busQueue hd)
        simp only [Latched.entryAt, he, robSlot_robId] at hbit
        rw [h, robMsgPayload, if_neg (by simp [hop])]
        exact hbit hop
      · obtain ⟨hr, hb⟩ := storePick_spec (storePick_of_frees hf)
        have hop := co.entries.store_op inv hr (storeReady_busy hb)
        have := (st.robPayload_same inv.control hm).op.symm.trans ho
        exact absurd (hop.symm.trans this) (by decide)
    · simp [(st.quiet inv.control hc).robs] at hs

end

/-- The retired entries lead to `e`, and fetch goes on from there along the
    predictions of the entries in flight. -/
structure OnPath (s : Latched) (q : Plain) (e : Addr) : Prop where
  retired : Walk RobPayload.pc RobPayload.next 0 q.retired e
  resolved : ∀ data ∈ q.retired, EntryOk data ∧ (data.op = .branch → Bit data.value)
  window : s.rm.robs.clear = false →
    Walk RobPayload.pc RobPayload.predictedNext e (s.robs.map s.rm.robPayload) s.rm.pc
  force : s.rm.robs.clear = true → s.rm.forcePc.addr = e
  halted : q.hcf = true → s.commits = true ∧ s.head.op = .hcf

omit [WideShift] in
theorem dispatchRobPayload_next {predicted : BpResult} {seq : ℕ} {rs : RsId} {inst : Inst}
    {pc : Addr} {old : RobPayload} (hl : Legal inst) :
    (dispatchRobPayload s predicted seq rs inst pc old).predictedNext =
      dispatchNext s predicted inst pc := by
  rcases hl.format_cases with ⟨hf, h | h | h⟩ | ⟨hf, h | h⟩ | ⟨hf, h⟩ | ⟨hf, h⟩ | ⟨hf, h⟩ | ⟨hf, h⟩
  all_goals
    simp [dispatchRobPayload, dispatchNext, RobPayload.predictedNext, hf, h, Opcode.imm,
      Opcode.load, Opcode.jalr, Opcode.lui, Opcode.auipc, Opcode.op, Opcode.jal, Opcode.branch,
      Opcode.store]

namespace Step
variable (st : Step s q p s' q')
include st

theorem pc_eq (hf : s.rm.forcePc.busy = false) : s'.rm.pc =
    (s.dispatch p).elim s.rm.pc fun d =>
      dispatchNext s (branchPredict p.bp s.rm.pc) d.2 s.rm.pc := by
  rcases hd : s.dispatch p with _ | ⟨rs, inst⟩
  · refine st.kept (r := .pc) ?_
    rintro v (⟨h, -⟩ | ⟨rs, inst, h, -⟩)
    · simp [hf] at h
    · simp [hd] at h
  · exact st.written (r := .pc) (.inr ⟨rs, inst, hd, rfl⟩)

/-- The window follows the predictions after a step if what is left of it did. -/
theorem window (ctl : Control s) (hc : s.rm.robs.clear = false) {e : Addr}
    (h : Walk RobPayload.pc RobPayload.predictedNext e
      ((if s.retires then s.robs.tail else s.robs).map s.rm.robPayload) s.rm.pc) :
    Walk RobPayload.pc RobPayload.predictedNext e (s'.robs.map s'.rm.robPayload) s'.rm.pc := by
  have hkept : ∀ slot ∈ (if s.retires then s.robs.tail else s.robs), slot ∈ s.robs := by
    intro slot hs
    split_ifs at hs
    · exact List.mem_of_mem_tail hs
    · exact hs
  have hw := h.map_congr (g := s'.rm.robPayload) fun slot hs => by
    have hsame := st.robPayload_same ctl (hkept slot hs)
    refine ⟨hsame.pc, ?_⟩
    simp only [RobPayload.predictedNext, hsame.inst, hsame.pc, hsame.predictedAddr,
      hsame.predictedTake]
  rw [st.robs_eq hc ctl.robs, List.map_append, st.pc_eq (ctl.forcePc.trans hc)]
  rcases hd : s.dispatch p with _ | ⟨rs, inst⟩
  · simpa using hw
  · have hp := st.robPayload_dispatch hd
    have hl := (dispatch_decoded hd).2
    have hcat := hw.concat (st.entry_dispatch hd).2.2.1
    rw [hp, dispatchRobPayload_next hl] at hcat
    simpa [hp] using hcat

end Step

theorem Conserved.waits (inv : Conserved s) (st : Step s q p s' q') (h : s.commits = true)
    (hr : s.retires = false) : s'.commits = true ∧ s'.head = s.head := by
  have hc := Latched.clear_of_commits h
  have hf := Latched.not_flushes hr
  have hm := head_mem inv.control h
  have hhead : s'.rm.robs.head = s.rm.robs.head := by
    rw [(st.robsQueue hc).head, hr]
    rfl
  have hm' : s.rm.robs.head ∈ s'.robs :=
    (st.mem_robs inv.control hc).2 (.inl ⟨hm, by simp [hr]⟩)
  obtain ⟨hready, hpay⟩ := inv.stable st hm (ready_of_commits h) hm'
  have hne : queueEmpty s'.rm.robs = false := decide_eq_false fun he => by
    have hnil : s'.robs = [] := (st.control inv.control).robs.queueForeach_eq_nil_iff.2 he
    simp [hnil] at hm'
  constructor
  · rw [Latched.commits, st.robsClear, hf, hne, hhead, hready]
    rfl
  · rw [Latched.head, hhead, hpay]
    rfl

theorem Conserved.halts (inv : Conserved s) (st : Step s q p s' q') (h : s.commits = true)
    (ho : s.head.op = .hcf) : s'.commits = true ∧ s'.head.op = .hcf := by
  have hr : s.retires = false := by simp [Latched.retires, ho]
  obtain ⟨hcommits, hhead⟩ := inv.waits st h hr
  exact ⟨hcommits, hhead ▸ ho⟩

theorem OnPath.step {e : Addr} (path : OnPath s q e) (co : Coherent s) (br : Branches s)
    (st : Step s q p s' q') : ∃ e', OnPath s' q' e' := by
  have inv := co.conserved
  have ctl := inv.control
  have hhalt : q'.hcf = true → s'.commits = true ∧ s'.head.op = .hcf := fun h => by
    rw [st.hcf, Bool.or_eq_true, Bool.and_eq_true, decide_eq_true_eq] at h
    rcases h with h | ⟨h₁, h₂⟩
    · exact inv.halts st (path.halted h).1 (path.halted h).2
    · exact inv.halts st h₁ h₂
  cases hr : s.retires
  · have hret : q'.retired = q.retired := by simp [st.retired, Latched.retired, hr]
    have hf := Latched.not_flushes hr
    refine ⟨e, by rw [hret]; exact path.retired, by rw [hret]; exact path.resolved,
      fun _ => ?_, fun hc' => ?_, hhalt⟩
    · cases hc : s.rm.robs.clear
      · have hw := path.window hc
        refine st.window ctl hc ?_
        rwa [hr]
      · rw [(st.quiet ctl hc).robs, st.pc_force (ctl.forcePc.trans hc)]
        exact (path.force hc).symm
    · rw [st.robsClear, hf] at hc'
      cases hc'
  · have hcm := Latched.commits_of_retires hr
    have hc := Latched.clear_of_commits hcm
    have hcons := robs_head ctl hcm
    have hm := head_mem ctl hcm
    have hret : q'.retired = q.retired ++ [s.head] := by simp [st.retired, Latched.retired, hr]
    have hok := co.entries.entry _ hm
    have hbit := br.ready _ hm (ready_of_commits hcm)
    have hw := path.window hc
    rw [hcons] at hw
    obtain ⟨hpc, hw⟩ := hw
    refine ⟨s.head.next, ?_, ?_, fun hc' => ?_, fun hc' => ?_, hhalt⟩
    · rw [hret]
      exact path.retired.concat hpc
    · rw [hret]
      intro data hd
      rcases List.mem_append.1 hd with hd | hd
      · exact path.resolved data hd
      · rw [List.mem_singleton.1 hd]
        exact ⟨hok, hbit⟩
    · refine st.window ctl hc ?_
      rw [st.robsClear] at hc'
      have hnext := hok.next_of_predicted hbit fun ho => by
        rw [← Bool.not_eq_true] at hc' ⊢
        exact fun hm => hc' (Latched.flushes_iff.2 ⟨hcm, ho, hm⟩)
      rw [hr, if_pos rfl, Latched.head, hnext]
      exact hw
    · rw [st.robsClear] at hc'
      obtain ⟨-, ho, hm⟩ := Latched.flushes_iff.1 hc'
      rw [st.forcePc_addr hc']
      exact (hok.next_of_mispredicted hbit ho hm).symm

section
variable (image : MemData) (garbage : ℤ → ℤ → ℤ) (hist : ℤ)

omit [WideShift] in
theorem branches_cpuCreate : Branches (latch (cpuCreate image garbage hist)) where
  flow :=
    { task := fun _ _ hb => by cases hb
      buf := fun _ _ hb => by cases hb
      helper := fun _ _ _ hm => by cases hm
      bus := fun _ hm => by cases hm
      lsq := fun _ hs => by cases hs
      mem := fun _ _ hb => by cases hb }
  ready := fun _ hs => by cases hs

omit [WideShift] in
theorem onPath_cpuCreate :
    OnPath (latch (cpuCreate image garbage hist)) (cpuCreate image garbage hist).plain 0 where
  retired := rfl
  resolved := fun _ hd => by cases hd
  window := fun _ => rfl
  force := fun h => by cases h
  halted := fun h => by cases h

theorem onPath_of_cpuRun {os : List Schedule} {c : Cpu}
    (hr : cpuRun os (cpuCreate image garbage hist) = .ok c) : ∃ e, OnPath (latch c) c.plain e :=
  (cpuRun_induction (I := fun s q => Coherent s ∧ Branches s ∧ ∃ e, OnPath s q e)
    ⟨coherent_cpuCreate image garbage hist, branches_cpuCreate image garbage hist, 0,
      onPath_cpuCreate image garbage hist⟩
    (fun {s q p s' q'} inv st => by
      obtain ⟨co, br, e, path⟩ := inv
      exact ⟨co.step st, br.step co st, path.step co br st⟩) hr).2.2

/-- On every run that trips no assertion the retired instructions follow each other
    from address 0 on, and HCF stops the CPU only where it is the next of them. -/
theorem retired_path {os : List Schedule} {c : Cpu}
    (hr : cpuRun os (cpuCreate image garbage hist) = .ok c) :
    (∀ data, c.plain.retired.head? = some data → data.pc = 0) ∧
    (∀ i a b, c.plain.retired[i]? = some a → c.plain.retired[i + 1]? = some b →
      b.pc = a.next) ∧
    (∀ data ∈ c.plain.retired, (∃ word, data.inst = instDecode word) ∧
      (data.inst.opcode = Opcode.branch → Bit data.value)) ∧
    (c.plain.hcf = true → (latch c).head.inst.op = InstOp.hcf ∧
      Walk RobPayload.pc RobPayload.next 0 c.plain.retired (latch c).head.pc) := by
  obtain ⟨e, path⟩ := onPath_of_cpuRun image garbage hist hr
  have co := coherent_of_cpuRun image garbage hist hr
  refine ⟨fun data hd => path.retired.head_place hd,
    fun i a b ha hb => path.retired.place_succ ha hb, fun data hd => ?_, fun hh => ?_⟩
  · obtain ⟨hok, hbit⟩ := path.resolved data hd
    refine ⟨hok.decoded, fun ho => hbit ?_⟩
    rw [hok.op]
    exact hok.legal.robOp_branch_iff.2 ho
  · obtain ⟨hcm, ho⟩ := path.halted hh
    have hcons := robs_head co.conserved.control hcm
    have hok := co.entries.entry _ (head_mem co.conserved.control hcm)
    have hw := path.window (Latched.clear_of_commits hcm)
    rw [hcons] at hw
    refine ⟨hok.legal.robOp_hcf_iff.1 (hok.op.symm.trans ho), ?_⟩
    rw [show (latch c).head.pc = e from hw.1]
    exact path.retired

end

omit [WideShift] in
theorem retired_path_link :
    (bootCpu 10 linkProgram).plain.retired[1]?.map RobPayload.pc =
      (bootCpu 10 linkProgram).plain.retired[0]?.map RobPayload.next := by
  have hr := @cpuRun_boot 10 linkProgram (by decide +kernel)
  obtain ⟨a, ha⟩ := Option.isSome_iff_exists.1
    (by decide +kernel : (bootCpu 10 linkProgram).plain.retired[0]?.isSome = true)
  obtain ⟨b, hb⟩ := Option.isSome_iff_exists.1
    (by decide +kernel : (bootCpu 10 linkProgram).plain.retired[1]?.isSome = true)
  have h := (@retired_path .masked _ _ _ _ _ hr).2.1 0 a b ha hb
  rw [ha, hb, Option.map_some, Option.map_some, h]

end TomasuloCpu
