import TomasuloCpu.Decode
import TomasuloCpu.Rename

set_option autoImplicit false

/-!
# Entries and stations

What dispatch puts into an entry of the reorder buffer and into its station, and
what stays of it.
-/
namespace TomasuloCpu
open Clocked

def reads1 (inst : Inst) : Bool :=
  inst.format = .i || inst.format = .r || inst.format = .b || inst.format = .s

def reads2 (inst : Inst) : Bool := inst.format = .r || inst.format = .b || inst.format = .s

def const1 (inst : Inst) (pc : Addr) : Word :=
  if inst.opcode = Opcode.lui then inst.immediate
  else if inst.opcode = Opcode.auipc then signedAdd pc inst.immediate
  else pc + instSize

def const2 (inst : Inst) : Word := if inst.format = .i then inst.immediate else 0

def stationAluOp (inst : Inst) : AluOp :=
  if inst.opcode = Opcode.jalr ∨ inst.format = .u ∨ inst.format = .j then AluOp.add
  else instAluOp inst

/-- An entry belongs to a decoded instruction. -/
structure EntryOk (data : RobPayload) : Prop where
  decoded : ∃ word, data.inst = instDecode word
  legal : Legal data.inst
  op : data.op = instRobOp data.inst
  dest : data.dest = if hasDest data.inst then data.inst.rd else -1
  size : data.size = instLsOp data.inst
  link : data.op = .jalr → data.value = data.pc + instSize
  fallback : data.op = .branch → data.fallback =
    if data.predictedTake.take then data.pc + instSize else signedAdd data.pc data.inst.immediate

/-- A station holds the operation of its instruction, and the operands that are
    not registers. -/
structure StationOk (rs : RsId) (data : RsPayload) (inst : Inst) (pc : Addr) : Prop where
  kind : rs ∈ rsVec (instType inst)
  opAlu : data.opAlu = stationAluOp inst
  opLs : data.opLs = instLsOp inst
  addr : inst.opcode = Opcode.load ∨ inst.opcode = Opcode.store → data.addr = inst.immediate
  operand1 : reads1 inst = false → data.src1 = 0 ∧ data.value1 = const1 inst pc
  operand2 : reads2 inst = false → data.src2 = 0 ∧
    (inst.opcode ≠ Opcode.load → data.value2 = const2 inst)

def Latched.entryOf (s : Latched) (rs : RsId) : RobPayload :=
  s.rm.robPayload (robSlot (s.rm.rsPayload rs).dest)

/-- All entries and busy stations are as dispatch left them. -/
structure Entries (s : Latched) : Prop where
  entry : ∀ slot ∈ s.robs, EntryOk (s.rm.robPayload slot)
  station : ∀ rs ∈ stations, s.rm.rsBusy rs = true →
    StationOk rs (s.rm.rsPayload rs) (s.entryOf rs).inst (s.entryOf rs).pc
  load : ∀ rs ∈ loadBuffers, (s.rm.rsPayload rs).src2 = 0

theorem rsVec_disjoint {rs : RsId} {t t' : RsType} (h : rs ∈ rsVec t) (h' : rs ∈ rsVec t') :
    t = t' := by
  revert rs
  cases t <;> cases t' <;> decide

section
variable {s : Latched} {p : Plain} {rs : RsId} {inst : Inst}

theorem dispatch_decoded (h : s.dispatch p = some (rs, inst)) :
    (∃ word, inst = instDecode word) ∧ Legal inst := by
  obtain ⟨rfl, hu, -⟩ := dispatch_spec h
  exact ⟨⟨_, rfl⟩, instDecode_legal hu⟩

theorem dispatchRobPayload_fields (s : Latched) (predicted : BpResult) (seq : ℕ) (rs : RsId)
    (inst : Inst) (pc : Addr) (old : RobPayload) :
    (dispatchRobPayload s predicted seq rs inst pc old).op = instRobOp inst ∧
      (dispatchRobPayload s predicted seq rs inst pc old).size = instLsOp inst ∧
      (dispatchRobPayload s predicted seq rs inst pc old).pc = pc ∧
      (dispatchRobPayload s predicted seq rs inst pc old).inst = inst := by
  simp only [dispatchRobPayload]
  split <;> (try split_ifs) <;> simp

variable (hl : Legal inst)
include hl

theorem dispatchRobPayload_ok {predicted : BpResult} {seq : ℕ} {pc : Addr} {old : RobPayload}
    (hd : ∃ word, inst = instDecode word) :
    EntryOk (dispatchRobPayload s predicted seq rs inst pc old) := by
  obtain ⟨hop, hsize, hpc, hinst⟩ := dispatchRobPayload_fields s predicted seq rs inst pc old
  constructor
  case link =>
    intro ho
    have hj := hl.robOp_jalr_iff.1 (hop.symm.trans ho)
    simp [dispatchRobPayload, hj, hl.format_of_jalr hj]
  case fallback =>
    intro ho
    have hb := hl.robOp_branch_iff.1 (hop.symm.trans ho)
    simp [dispatchRobPayload, hl.format_of_branch hb]
  all_goals rw [hinst]
  · exact hd
  · exact hl
  · exact hop
  · exact dispatchRobPayload_dest
  · exact hsize

theorem dispatchRsPayload_ok {seq : ℕ} {rob : RobId} {pc : Addr} {old : RsPayload}
    (hk : rs ∈ rsVec (instType inst)) (ho : rs ∈ loadBuffers → old.src2 = 0) :
    StationOk rs (dispatchRsPayload s seq rob inst pc old) inst pc := by
  have hload : inst.opcode = Opcode.load → old.src2 = 0 := fun h => by
    refine ho ?_
    rwa [hl.instType_load_iff.2 h] at hk
  have hupper := hl.upper
  rcases hl.format_cases with ⟨hf, h | h | h⟩ | ⟨hf, h | h⟩ | ⟨hf, h⟩ | ⟨hf, h⟩ | ⟨hf, h⟩ | ⟨hf, h⟩
  all_goals
    refine ⟨hk, ?_, ?_, ?_, ?_, ?_⟩ <;>
      simp_all [dispatchRsPayload, stationAluOp, const1, const2, reads1, reads2, Opcode.imm,
        Opcode.load, Opcode.jalr, Opcode.lui, Opcode.auipc, Opcode.op, Opcode.jal, Opcode.branch,
        Opcode.store]

end

theorem StationOk.rsMsgPayload {rs : RsId} {data : RsPayload} {inst : Inst} {pc : Addr}
    {msg : CdbMessage} (h : StationOk rs data inst pc) (hm : msg.rob ≠ 0) :
    StationOk rs (rsMsgPayload data msg) inst pc where
  kind := h.kind
  opAlu := h.opAlu
  opLs := h.opLs
  addr := h.addr
  operand1 := fun hr => by
    obtain ⟨h₁, h₂⟩ := h.operand1 hr
    simp [TomasuloCpu.rsMsgPayload, h₁, h₂, hm.symm]
  operand2 := fun hr => by
    obtain ⟨h₁, h₂⟩ := h.operand2 hr
    simpa [TomasuloCpu.rsMsgPayload, h₁, hm.symm] using h₂

theorem EntryOk.robMsgPayload {data : RobPayload} {msg : CdbMessage} (h : EntryOk data) :
    EntryOk (robMsgPayload data msg) := by
  unfold TomasuloCpu.robMsgPayload
  split_ifs with ho
  · exact ⟨h.decoded, h.legal, h.op, h.dest, h.size, h.link, h.fallback⟩
  · exact ⟨h.decoded, h.legal, h.op, h.dest, h.size, fun hj => absurd hj ho, h.fallback⟩

theorem EntryOk.rsStorePayload {data : RsPayload} {old : RobPayload} (h : EntryOk old)
    (ho : old.op = .store) : EntryOk (rsStorePayload data old) := by
  simp only [TomasuloCpu.rsStorePayload]
  split_ifs <;>
    exact ⟨h.decoded, h.legal, h.op, h.dest, h.size, fun hj => by simp [ho] at hj,
      fun hb => by simp [ho] at hb⟩

variable [WideShift] {s s' : Latched} {q p q' : Plain}

namespace Step
variable (st : Step s q p s' q')
include st

theorem robPayload_cases (ctl : Control s) {slot : ℤ} (hs : slot ∈ s.robs) :
    s'.rm.robPayload slot = s.rm.robPayload slot ∨
    (∃ msg, s.delivered = some msg ∧ msg.rob = robId slot ∧
      s'.rm.robPayload slot = robMsgPayload (s.rm.robPayload slot) msg) ∨
    (∃ rs, s.storePick = some rs ∧ slot = robSlot (s.rm.rsPayload rs).dest ∧
      s'.rm.robPayload slot = s.storeEntry rs) := by
  rcases st.cases (.robPayload slot) with
    ⟨v, ⟨-, -, msg, hm, he, rfl⟩ | ⟨rs, hp, he, rfl⟩ | ⟨rfl, -⟩, hv⟩ | ⟨-, hk⟩
  · exact .inr (.inl ⟨msg, hm, he, hv⟩)
  · exact .inr (.inr ⟨rs, hp, he, hv⟩)
  · exact absurd hs ctl.robs.tail_notMem
  · exact .inl hk

theorem rsPayload_cases (rs : RsId) :
    s'.rm.rsPayload rs = s.rm.rsPayload rs ∨
    (s.rm.rsBusy rs = true ∧ rs ∈ stations ∧ ∃ msg, s.delivered = some msg ∧
      s'.rm.rsPayload rs = rsMsgPayload (s.rm.rsPayload rs) msg) ∨
    (∃ inst, s.dispatch p = some (rs, inst)) := by
  rcases st.cases (.rsPayload rs) with
    ⟨v, ⟨-, hb, hr, msg, hm, -, rfl⟩ | ⟨inst, hd, -⟩, hv⟩ | ⟨-, hk⟩
  · exact .inr (.inl ⟨hb, hr, msg, hm, hv⟩)
  · exact .inr (.inr ⟨inst, hd⟩)
  · exact .inl hk

theorem entry_dispatch {rs : RsId} {inst : Inst} (h : s.dispatch p = some (rs, inst)) :
    (s'.rm.rsPayload rs).dest = robId s.rm.robs.tail ∧
      s'.entryOf rs = s'.rm.robPayload s.rm.robs.tail ∧
      (s'.rm.robPayload s.rm.robs.tail).pc = s.rm.pc ∧
      (s'.rm.robPayload s.rm.robs.tail).inst = inst := by
  have hdest : (s'.rm.rsPayload rs).dest = robId s.rm.robs.tail := by
    rw [st.rsPayload_dispatch h]
    exact congrArg Prod.fst dispatchRsPayload_key
  obtain ⟨-, -, hpc, hinst⟩ := dispatchRobPayload_fields s (branchPredict p.bp s.rm.pc)
    q.dispatched rs inst s.rm.pc (s.rm.robPayload s.rm.robs.tail)
  rw [st.robPayload_dispatch h]
  refine ⟨hdest, ?_, hpc, hinst⟩
  rw [Latched.entryOf, hdest, robSlot_robId, st.robPayload_dispatch h]

end Step

omit [WideShift] in
theorem Conserved.delivered_ne_zero (inv : Conserved s) {msg : CdbMessage}
    (h : s.delivered = some msg) : msg.rob ≠ 0 := by
  have := robId_pos (inv.control.robs.queueForeach_bounds (inv.delivered_open h).1).1
  rw [robId_robSlot] at this
  exact Int.ne_of_gt this

namespace Entries
variable (ent : Entries s) (inv : Conserved s) (st : Step s q p s' q')

omit [WideShift] in
theorem store_op {rs : RsId} (ent : Entries s) (inv : Conserved s) (hr : rs ∈ storeBuffers)
    (hb : s.rm.rsBusy rs = true) : (s.entryOf rs).op = .store := by
  have hm : rs ∈ stations := by simp [stations, hr]
  have he := ent.entry _ (inv.rs_open hm hb).1
  have hk := rsVec_disjoint (t := .storeBuffer) hr (ent.station rs hm hb).kind
  exact he.op.trans (he.legal.robOp_store_iff.2 (he.legal.instType_store_iff.1 hk.symm))

include ent inv st

theorem step_entry (hc : s.rm.robs.clear = false) {slot : ℤ} (hs : slot ∈ s'.robs) :
    EntryOk (s'.rm.robPayload slot) := by
  rcases (st.mem_robs inv.control hc).1 hs with ⟨hs, -⟩ | ⟨hd, rfl⟩
  · have he := ent.entry slot hs
    rcases st.robPayload_cases inv.control hs with h | ⟨msg, -, -, h⟩ | ⟨rs, hp, rfl, h⟩
    · rwa [h]
    · rw [h]
      exact he.robMsgPayload
    · rw [h]
      obtain ⟨hr, hb⟩ := storePick_spec hp
      exact he.rsStorePayload (ent.store_op inv hr (storeReady_busy hb))
  · obtain ⟨⟨rs, inst⟩, hd⟩ := Option.isSome_iff_exists.1 hd
    obtain ⟨hw, hl⟩ := dispatch_decoded hd
    rw [st.robPayload_dispatch hd]
    exact dispatchRobPayload_ok hl hw

omit ent in
theorem entryOf_same {rs : RsId} (hr : rs ∈ stations) (hb : s.rm.rsBusy rs = true) :
    (s'.rm.rsPayload rs).dest = (s.rm.rsPayload rs).dest ∧
      (s'.entryOf rs).Same (s.entryOf rs) := by
  have hk : (s'.rm.rsPayload rs).dest = (s.rm.rsPayload rs).dest :=
    congrArg Prod.fst (st.rsKey_eq hb)
  refine ⟨hk, ?_⟩
  rw [Latched.entryOf, hk]
  exact st.robPayload_same inv.control (inv.rs_open hr hb).1

theorem step_station (hc : s.rm.robs.clear = false) {rs : RsId} (hr : rs ∈ stations)
    (hb : s'.rm.rsBusy rs = true) :
    StationOk rs (s'.rm.rsPayload rs) (s'.entryOf rs).inst (s'.entryOf rs).pc := by
  rcases (st.rsBusy (inv.control.rsClear.trans hc) rs).1 hb with ⟨hb, -⟩ | hd
  · have he := (entryOf_same inv st hr hb).2
    have hs := ent.station rs hr hb
    rw [he.inst, he.pc]
    rcases st.rsPayload_cases rs with h | ⟨-, -, msg, hm, h⟩ | ⟨inst, hd⟩
    · rwa [h]
    · rw [h]
      exact hs.rsMsgPayload (inv.delivered_ne_zero hm)
    · simp [(dispatch_spec hd).2.2.2.1] at hb
  · obtain ⟨⟨rs, inst⟩, hm, rfl⟩ := List.mem_map.1 hd
    have hd := Option.mem_toList.1 hm
    have hl := (dispatch_decoded hd).2
    obtain ⟨-, hentry, hpc, hi⟩ := st.entry_dispatch hd
    rw [hentry, hpc, hi, st.rsPayload_dispatch hd]
    exact dispatchRsPayload_ok hl (dispatch_spec hd).2.2.1 (ent.load rs)

omit inv in
theorem step_load {rs : RsId} (hr : rs ∈ loadBuffers) : (s'.rm.rsPayload rs).src2 = 0 := by
  have h0 := ent.load rs hr
  rcases st.rsPayload_cases rs with h | ⟨-, -, msg, hm, h⟩ | ⟨inst, hd⟩
  · rw [h, h0]
  · rw [h]
    simp [rsMsgPayload, h0]
  · have hl := (dispatch_decoded hd).2
    have hk := (dispatch_spec hd).2.2.1
    rw [st.rsPayload_dispatch hd]
    have hkind : instType inst = .loadBuffer := rsVec_disjoint hk hr
    have hload := hl.instType_load_iff.1 hkind
    refine ((dispatchRsPayload_ok hl hk (ent.load rs)).operand2 ?_).1
    simp [reads2, hl.format, hload, opcodeFormat]

theorem step : Entries s' := by
  cases hc : s.rm.robs.clear
  · exact ⟨fun slot hs => ent.step_entry inv st hc hs,
      fun rs hr hb => ent.step_station inv st hc hr hb, fun rs hr => ent.step_load st hr⟩
  · have hq := st.quiet inv.control hc
    refine ⟨fun slot hs => ?_, fun rs hr hb => ?_, fun rs hr => ent.step_load st hr⟩
    · simp [hq.robs] at hs
    · simp [hq.rsBusy rs hr] at hb

end Entries

omit [WideShift] in
theorem entries_cpuCreate (image : MemData) (garbage : ℤ → ℤ → ℤ) (hist : ℤ) :
    Entries (latch (cpuCreate image garbage hist)) where
  entry := fun slot hs => by cases hs
  station := fun rs _ hb => by cases hb
  load := fun rs _ => rfl

end TomasuloCpu
