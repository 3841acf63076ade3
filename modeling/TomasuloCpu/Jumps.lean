import TomasuloCpu.Boot
import TomasuloCpu.Operands
import TomasuloCpu.Path

set_option autoImplicit false

/-!
# Where a JALR is predicted to go

Dispatch reads the base of a JALR twice, for the prediction and for the station.
The two agree unless the station gets it in a message, so a JALR that is predicted
wrong has waited for its base.
-/
namespace TomasuloCpu
open Clocked

/-- The base of an entry came in a message, at its dispatch or after. -/
def Plain.Heard (q : Plain) (data : RobPayload) : Prop :=
  ∃ route rob producer value, route ≠ .entry ∧
    .capture data.seq data.inst.rs1 route rob producer value ∈ q.log

/-- A JALR that goes to `addr` is predicted right, or has heard its base. -/
def Plain.Foretold (q : Plain) (data : RobPayload) (addr : Addr) : Prop :=
  data.op = .jalr → q.Heard data ∨ data.predictedAddr = addr &&& ~~~(1 : Word)

variable [WideShift]

/-- The addresses of JALRs on their way to the reorder buffer are those predicted. -/
structure Foresees (s : Latched) (q : Plain) : Prop where
  flow : Flow s
    (fun t => ∀ result, aluExecute t.op t.value1 t.value2 = some result →
      q.Foretold (s.entryAt t.baseMsg.rob) result)
    (fun m => q.Foretold (s.entryAt m.rob) m.result)
    (fun l => (s.entryAt l.baseMsg.rob).op ≠ .jalr)
    (fun r => (s.entryAt r.baseMsg.rob).op ≠ .jalr)
  station : ∀ rs ∈ stations, s.rm.rsBusy rs = true → (s.rm.rsPayload rs).src1 = 0 →
    q.Foretold (s.entryOf rs) (signedAdd (s.rm.rsPayload rs).value1 (s.entryOf rs).inst.immediate)
  ready : ∀ slot ∈ s.robs, s.rm.robReady slot = true →
    q.Foretold (s.rm.robPayload slot) (s.rm.robPayload slot).addr
  retired : ∀ data ∈ q.retired, q.Foretold data data.addr

variable {s s' : Latched} {q p q' : Plain}

omit [WideShift] in
/-- The base that the prediction reads is the operand of the station, unless that comes from
    the bus. -/
theorem instJalrPrediction_eq {inst : Inst} (ren : Renamed s) (ctl : Control s)
    (hx : inst.rs1 ∈ regIds) (h : (instRegSet s inst.rs1).src = 0)
    (hb : (instRegSet s inst.rs1).route ≠ some .bus) :
    instJalrPrediction s inst =
      signedAdd (instRegSet s inst.rs1).value inst.immediate &&& ~~~(1 : Word) := by
  suffices hv : (if 0 < regStoreRobIdGet s inst.rs1 then
        if s.rm.robReady (robSlot (regStoreRobIdGet s inst.rs1)) then
          (s.rm.robPayload (robSlot (regStoreRobIdGet s inst.rs1))).value
        else regStoreGet s inst.rs1
      else regStoreGet s inst.rs1) = (instRegSet s inst.rs1).value by
    rw [← hv]
    rfl
  by_cases h0 : inst.rs1 = 0
  · simp [instRegSet, regStoreRobIdGet, regStoreGet, h0]
  have hid : regStoreRobIdGet s inst.rs1 = (s.writer inst.rs1).elim 0 robId :=
    (if_neg h0).trans (ren _ hx h0)
  cases hw : s.writer inst.rs1 with
  | none =>
    rw [hw, Option.elim_none] at hid
    simp [instRegSet, hid, h0]
  | some slot =>
    rw [hw, Option.elim_some] at hid
    have hpos := robId_pos (ctl.robs.queueForeach_bounds (writer_mem hw)).1
    have hne : robId slot ≠ 0 := Int.ne_of_gt hpos
    rw [hid, if_pos hpos, robSlot_robId]
    cases hr : s.rm.robReady slot
    · -- not ready: the operand is on the bus, or waited for
      exfalso
      simp only [instRegSet, h0, hid, hne, robSlot_robId, hr, Bool.false_eq_true, ↓reduceIte]
        at h hb
      cases hg : busGetData s with
      | none =>
        rw [hg] at h
        exact hne h
      | some msg =>
        simp only [hg] at h hb
        split_ifs at h hb with hm
        · exact hb rfl
        · exact hne h
    · simp [instRegSet, h0, hid, hne, robSlot_robId, hr]

namespace Step
variable (st : Step s q p s' q')
include st

theorem heard_mono {data data' : RobPayload} (hs : data'.Same data) (h : q.Heard data) :
    q'.Heard data' := by
  obtain ⟨route, rob, producer, value, hne, hm⟩ := h
  refine ⟨route, rob, producer, value, hne, ?_⟩
  rw [hs.seq, hs.inst]
  exact st.mem_log.2 (.inl hm)

theorem foretold_mono {data data' : RobPayload} {addr : Addr} (hs : data'.Same data)
    (h : q.Foretold data addr) : q'.Foretold data' addr := by
  intro ho
  rw [hs.predictedAddr]
  exact (h (hs.op.symm.trans ho)).imp_left (st.heard_mono hs)

end Step

namespace Foresees
variable (fs : Foresees s q) (co : Coherent s) (st : Step s q p s' q')
include fs co st

theorem step_flow : Flow s'
    (fun t => ∀ result, aluExecute t.op t.value1 t.value2 = some result →
      q'.Foretold (s'.entryAt t.baseMsg.rob) result)
    (fun m => q'.Foretold (s'.entryAt m.rob) m.result)
    (fun l => (s'.entryAt l.baseMsg.rob).op ≠ .jalr)
    (fun r => (s'.entryAt r.baseMsg.rob).op ≠ .jalr) := by
  have inv := co.conserved
  have hsame : ∀ m : CdbMessage, m.key ∈ s.carriers →
      (s'.entryAt m.rob).Same (s.entryAt m.rob) := fun m hk =>
    st.robPayload_same inv.control (inv.mem_open hk).1
  have hkind : ∀ {rs}, rs ∈ stations → s.rm.rsBusy rs = true → EntryOk (s.entryOf rs) ∧
      StationOk rs (s.rm.rsPayload rs) (s.entryOf rs).inst (s.entryOf rs).pc := fun hr hb =>
    ⟨co.entries.entry _ (inv.rs_open hr hb).1, co.entries.station _ hr hb⟩
  refine fs.flow.advance inv st ?_ (fun a ha hb ht result he => ht result he) ?_
    (fun _ h => h) (fun _ _ h => h) (fun i _ hr msg hm => ?_) (fun t hk h => ?_)
    (fun m hk h => ?_) (fun l hk h => ?_) (fun r hk h => ?_)
  · intro a rs hs result he ho
    obtain ⟨hr, hb⟩ := freed_busy (mem_freed.2 (.inl ⟨a, aluFrees_of_starts hs⟩))
    have hready := (aluPick_spec (aluPick_of_frees (aluFrees_of_starts hs))).2.2.2
    obtain ⟨hent, hst⟩ := hkind hr hb
    have hj := hent.legal.robOp_jalr_iff.1 (hent.op.symm.trans ho)
    have hf := hent.legal.format_of_jalr hj
    have h1 : (s.rm.rsPayload rs).src1 = 0 := by
      simp only [Latched.ready, Bool.and_eq_true, decide_eq_true_eq] at hready
      exact hready.1.2
    have hv : (s.rm.rsPayload rs).value2 = (s.entryOf rs).inst.immediate := by
      rw [(hst.operand2 (by simp [reads2, hf])).2 (by rw [hj]; decide), const2, if_pos hf]
    have hop : (s.rm.rsPayload rs).opAlu = AluOp.add := by
      rw [hst.opAlu, stationAluOp, if_pos (.inl hj)]
    have hres : result = signedAdd (s.rm.rsPayload rs).value1 (s.entryOf rs).inst.immediate := by
      change aluExecute (s.rm.rsPayload rs).opAlu _ _ = some result at he
      rw [hop] at he
      change some ((s.rm.rsPayload rs).value1 + (s.rm.rsPayload rs).value2) = some result at he
      rw [hv] at he
      exact (Option.some.inj he).symm
    rw [hres]
    exact fs.station rs hr hb h1 ho
  · intro rs hs ho
    obtain ⟨hr, hb⟩ := freed_busy (mem_freed.2 (.inr (.inl hs)))
    obtain ⟨hent, hst⟩ := hkind hr hb
    have hj := hent.legal.robOp_jalr_iff.1 (hent.op.symm.trans ho)
    have hl : instType _ = .loadBuffer := rsVec_disjoint hst.kind (loadPick_spec hs).1
    exact absurd (hj.symm.trans (hent.legal.instType_load_iff.1 hl)) (by decide)
  · obtain ⟨v, -, rfl⟩ := Option.map_eq_some_iff.1 hm
    exact fun ho => absurd ho hr
  · exact fun result he => st.foretold_mono (hsame _ hk) (h result he)
  · exact st.foretold_mono (hsame _ hk) h
  · rw [(hsame _ hk).op]
    exact h
  · rw [(hsame _ hk).op]
    exact h

omit fs in
theorem dispatch_foretold {rs : RsId} {inst : Inst} (hd : s.dispatch p = some (rs, inst))
    (h1 : (s'.rm.rsPayload rs).src1 = 0) :
    q'.Foretold (s'.entryOf rs) (signedAdd (s'.rm.rsPayload rs).value1
      (s'.entryOf rs).inst.immediate) := by
  intro ho
  obtain ⟨-, hentry, -, hinst⟩ := st.entry_dispatch hd
  obtain ⟨hw, hl⟩ := dispatch_decoded hd
  have hpay := st.robPayload_dispatch hd
  have hj : inst.opcode = Opcode.jalr := by
    rw [hentry, hpay, (dispatchRobPayload_fields ..).1] at ho
    exact hl.robOp_jalr_iff.1 ho
  have hf := hl.format_of_jalr hj
  obtain ⟨hsrc, hvalue, hmem⟩ := (@Operands.dispatchRsPayload_operands s inst hl q.dispatched
    (robId s.rm.robs.tail) s.rm.pc (s.rm.rsPayload rs)).1 (by simp [reads1, hf])
  rw [← st.rsPayload_dispatch hd] at hsrc hvalue
  rw [hsrc] at h1
  rw [hvalue, hentry, hinst]
  by_cases hb : (instRegSet s inst.rs1).route = some .bus
  · refine .inl ⟨.bus, _, _, _, by decide, st.mem_log.2 (.inr (.inr ⟨rs, inst, hd, ?_, ?_, ?_,
      rfl, rfl, rfl⟩))⟩
    · rw [hinst]
      exact hmem
    · rw [hinst]
      exact hb
    · rw [hpay, st.seq]
      simp [dispatchRobPayload, hf, hj]
  · right
    rw [← instJalrPrediction_eq co.renamed co.conserved.control
      (operand_mem_regIds hl hmem) h1 hb, hpay]
    simp [dispatchRobPayload, hf, hj]

theorem step_station (hc : s.rm.robs.clear = false) {rs : RsId} (hr : rs ∈ stations)
    (hb : s'.rm.rsBusy rs = true) (h1 : (s'.rm.rsPayload rs).src1 = 0) :
    q'.Foretold (s'.entryOf rs) (signedAdd (s'.rm.rsPayload rs).value1
      (s'.entryOf rs).inst.immediate) := by
  have inv := co.conserved
  have hrc := inv.control.rsClear.trans hc
  rcases (st.rsBusy hrc rs).1 hb with ⟨hb, -⟩ | hd
  · have hsame := (Entries.entryOf_same inv st hr hb).2
    have hpay := st.rsPayload_busy hrc hr hb
    have hold := fs.station rs hr hb
    rw [hsame.inst]
    cases hm : s.delivered with
    | none =>
      rw [hm, Option.elim_none] at hpay
      rw [hpay] at h1 ⊢
      exact st.foretold_mono hsame (hold h1)
    | some msg =>
      rw [hm, Option.elim_some] at hpay
      by_cases hsrc : (s.rm.rsPayload rs).src1 = msg.rob
      · -- the listener takes the base
        intro _
        refine .inl ⟨.listener, _, _, _, by decide, st.mem_log.2 (.inr (.inl ⟨hrc, rfl, msg, hm,
          rfl, rfl, rfl, rs, hr, hb, ?_, .inl ⟨hsrc, ?_⟩⟩))⟩
        · rw [hsame.seq]
          exact (inv.rs_open hr hb).2.2
        · rw [hsame.inst]
          rfl
      · rw [hpay] at h1 ⊢
        simp only [rsMsgPayload, hsrc, ↓reduceIte] at h1 ⊢
        exact st.foretold_mono hsame (hold h1)
  · obtain ⟨⟨rs, inst⟩, hm, rfl⟩ := List.mem_map.1 hd
    exact dispatch_foretold co st (Option.mem_toList.1 hm) h1

theorem step_ready (hc : s.rm.robs.clear = false) {slot : ℤ} (hs : slot ∈ s'.robs)
    (hr : s'.rm.robReady slot = true) :
    q'.Foretold (s'.rm.robPayload slot) (s'.rm.robPayload slot).addr := by
  have inv := co.conserved
  obtain ⟨hm, ⟨hr, h⟩ | ⟨-, msg, hd, he, h⟩ | ⟨-, rs, hf, rfl, h⟩⟩ := inv.ready_cases st hc hs hr
  all_goals have hsame := st.robPayload_same inv.control hm
  · have hold := st.foretold_mono hsame (fs.ready slot hm hr)
    rwa [h] at hold ⊢
  · -- the message brings the address
    intro ho
    have hop : (s.rm.robPayload slot).op = .jalr := hsame.op.symm.trans ho
    have hmsg := fs.flow.bus msg (mem_busQueue hd)
    simp only [Latched.entryAt, he, robSlot_robId] at hmsg
    have haddr : (s'.rm.robPayload slot).addr = msg.result := by
      rw [h, robMsgPayload, if_pos hop]
    rw [haddr]
    exact st.foretold_mono hsame hmsg ho
  · intro ho
    obtain ⟨hr, hb⟩ := storePick_spec (storePick_of_frees hf)
    have hop := co.entries.store_op inv hr (storeReady_busy hb)
    exact absurd (hop.symm.trans (hsame.op.symm.trans ho)) (by decide)

theorem step_retired {data : RobPayload} (hd : data ∈ q'.retired) : q'.Foretold data data.addr := by
  have hsame : data.Same data := ⟨rfl, rfl, rfl, rfl, rfl, rfl, rfl, rfl, rfl⟩
  rcases mem_retired_step st.retired hd with hd | ⟨hr, rfl⟩
  · exact st.foretold_mono hsame (fs.retired data hd)
  · have hc := Latched.commits_of_retires hr
    exact st.foretold_mono hsame
      (fs.ready _ (head_mem co.conserved.control hc) (ready_of_commits hc))

theorem step : Foresees s' q' where
  flow := fs.step_flow co st
  station := fun rs hr hb h1 => by
    cases hc : s.rm.robs.clear
    · exact fs.step_station co st hc hr hb h1
    · simp [(st.quiet co.conserved.control hc).rsBusy rs hr] at hb
  ready := fun slot hs hr => by
    cases hc : s.rm.robs.clear
    · exact fs.step_ready co st hc hs hr
    · simp [(st.quiet co.conserved.control hc).robs] at hs
  retired := fun _ hd => fs.step_retired co st hd

end Foresees

section
variable (image : MemData) (garbage : ℤ → ℤ → ℤ) (hist : ℤ)

theorem foresees_cpuCreate : Foresees (latch (cpuCreate image garbage hist))
    (cpuCreate image garbage hist).plain where
  flow :=
    { task := fun _ _ hb => by cases hb
      buf := fun _ _ hb => by cases hb
      helper := fun _ _ _ hm => by cases hm
      bus := fun _ hm => by cases hm
      lsq := fun _ hs => by cases hs
      mem := fun _ _ hb => by cases hb }
  station := fun _ _ hb => by cases hb
  ready := fun _ hs => by cases hs
  retired := fun _ hd => by cases hd

/-- A retired JALR that was predicted wrong has heard its base on the bus: where dispatch
    finds the base in the register or in a ready entry, the prediction is right. -/
theorem heard_of_mispredicted {os : List Schedule} {c : Cpu}
    (hr : cpuRun os (cpuCreate image garbage hist) = .ok c) {data : RobPayload}
    (hd : data ∈ c.plain.retired) (ho : data.op = .jalr) (hm : robIsMispredicted data = true) :
    ∃ route rob producer value, route ≠ .entry ∧
      .capture data.seq data.inst.rs1 route rob producer value ∈ c.plain.log := by
  have h := cpuRun_induction (I := fun s q => Coherent s ∧ Foresees s q)
    ⟨coherent_cpuCreate image garbage hist, foresees_cpuCreate image garbage hist⟩
    (fun inv st => ⟨inv.1.step st, inv.2.step inv.1 st⟩) hr
  refine (h.2.retired data hd ho).resolve_right fun he => ?_
  simp [robIsMispredicted, ho, he] at hm

end

/-- A jump to an address that the instruction before it computes. -/
def jumpProgram : List Word := [0x00c00093, 0x00008067, 0, instMagicHcf]

omit [WideShift] in
theorem heard_of_mispredicted_jump : ∃ route rob producer value, route ≠ .entry ∧
    .capture 1 1 route rob producer value ∈ (bootCpu 11 jumpProgram).plain.log :=
  have hd : ((bootCpu 11 jumpProgram).plain.retired[1]?.map fun data =>
      (data.op, robIsMispredicted data, data.seq, data.inst.rs1)) = some (.jalr, true, 1, 1) := by
    decide +kernel
  match h : (bootCpu 11 jumpProgram).plain.retired[1]? with
  | none => by simp [h] at hd
  | some data => by
    simp only [h, Option.map_some, Option.some.injEq, Prod.mk.injEq] at hd
    obtain ⟨ho, hm, hs, hi⟩ := hd
    rw [← hi]
    have hc := @heard_of_mispredicted .masked (imageOf jumpProgram) (fun _ _ => 0) 0 (bootTicks 11)
      (bootCpu 11 jumpProgram) (cpuRun_boot (by decide +kernel)) data (List.mem_of_getElem? h) ho hm
    rwa [hs] at hc

end TomasuloCpu
