import TomasuloCpu.Entries

set_option autoImplicit false

/-!
# Wake-up

What the source tags of busy stations stand for: older entries that are still to
be completed.
-/
namespace TomasuloCpu
open Clocked

/-- The tag `src` of a station waits for the older entry that writes `reg`. -/
structure WaitsOn (s : Latched) (rs : RsId) (src : RobId) (reg : RegId) : Prop where
  order : [robSlot src, robSlot (s.rm.rsPayload rs).dest].Sublist s.robs
  waiting : s.rm.robReady (robSlot src) = false
  dest : (s.rm.robPayload (robSlot src)).dest = reg
  ne_zero : reg ≠ 0

/-- All tags of busy stations are linked to the entries that they wait for. -/
structure Linked (s : Latched) : Prop where
  src1 : ∀ rs ∈ stations, s.rm.rsBusy rs = true → (s.rm.rsPayload rs).src1 ≠ 0 →
    WaitsOn s rs (s.rm.rsPayload rs).src1 (s.entryOf rs).inst.rs1
  src2 : ∀ rs ∈ stations, s.rm.rsBusy rs = true → (s.rm.rsPayload rs).src2 ≠ 0 →
    WaitsOn s rs (s.rm.rsPayload rs).src2 (s.entryOf rs).inst.rs2

theorem regIds_nonneg {x : RegId} (h : x ∈ regIds) : 0 ≤ x := by
  obtain ⟨i, -, rfl⟩ := List.mem_map.1 h
  exact Int.natCast_nonneg i

theorem EntryOk.dest_of_store {data : RobPayload} (h : EntryOk data) (ho : data.op = .store) :
    data.dest = -1 := by
  have hs := h.legal.robOp_store_iff.1 (h.op.symm.trans ho)
  have hf : data.inst.format = .s := by
    rw [h.legal.format, hs]
    rfl
  rw [h.dest, hasDest, hf]
  rfl

variable {s s' : Latched} {q p q' : Plain} {rs : RsId}

/-- An operand that is not there yet is that of an open entry. -/
theorem instRegSet_src {id : RegId} (h : (instRegSet s id).src ≠ 0) :
    id ≠ 0 ∧ (instRegSet s id).src = s.robIds id ∧
      s.rm.robReady (robSlot (instRegSet s id).src) = false ∧
      ∀ msg, busGetData s = some msg → msg.rob ≠ (instRegSet s id).src := by
  simp only [instRegSet, regStoreRobIdGet] at h ⊢
  by_cases h0 : id = 0
  · simp [h0] at h
  · simp only [h0, ↓reduceIte] at h ⊢
    by_cases hr : s.robIds id = 0
    · simp [hr] at h
    · simp only [hr, ↓reduceIte] at h ⊢
      cases hb : s.rm.robReady (robSlot (s.robIds id))
      · simp only [hb, Bool.false_eq_true, ↓reduceIte] at h ⊢
        cases hg : busGetData s with
        | none => simp [hb, h0]
        | some cdb =>
          simp only [hg] at h ⊢
          split_ifs with hc
          · simp [hc] at h
          · exact ⟨h0, rfl, hb, fun msg hm => by cases hm; exact hc⟩
      · simp [hb] at h

theorem dispatchRsPayload_src {inst : Inst} (hl : Legal inst) {seq : ℕ} {rob : RobId} {pc : Addr}
    {old : RsPayload} (ho : inst.opcode = Opcode.load → old.src2 = 0) :
    ((dispatchRsPayload s seq rob inst pc old).src1 ≠ 0 →
      (dispatchRsPayload s seq rob inst pc old).src1 = (instRegSet s inst.rs1).src) ∧
    ((dispatchRsPayload s seq rob inst pc old).src2 ≠ 0 →
      (dispatchRsPayload s seq rob inst pc old).src2 = (instRegSet s inst.rs2).src) := by
  rcases hl.format_cases with ⟨hf, h | h | h⟩ | ⟨hf, h | h⟩ | ⟨hf, h⟩ | ⟨hf, h⟩ | ⟨hf, h⟩ | ⟨hf, h⟩
  all_goals
    constructor <;>
      simp_all [dispatchRsPayload, Opcode.imm, Opcode.load, Opcode.jalr]

theorem rsMsgPayload_of_ne {data : RsPayload} {msg : CdbMessage} (h₁ : data.src1 ≠ msg.rob)
    (h₂ : data.src2 ≠ msg.rob) : rsMsgPayload data msg = data := by
  simp [rsMsgPayload, h₁, h₂]

theorem busGetData_of_delivered {msg : CdbMessage} (h : s.delivered = some msg) :
    busGetData s = some msg := by
  simp only [Latched.delivered] at h
  split_ifs at h
  exact h

variable [WideShift]

namespace Step
variable (st : Step s q p s' q')
include st

theorem rsPayload_busy (hc : s.rm.rsClear = false) (hr : rs ∈ stations)
    (hb : s.rm.rsBusy rs = true) : s'.rm.rsPayload rs =
      s.delivered.elim (s.rm.rsPayload rs) (rsMsgPayload (s.rm.rsPayload rs)) := by
  rcases st.cases (.rsPayload rs) with
    ⟨v, ⟨-, -, -, msg, hm, -, rfl⟩ | ⟨inst, hd, -⟩, hv⟩ | ⟨hn, hk⟩
  · rw [hm]
    exact hv
  · simp [(dispatch_spec hd).2.2.2.1] at hb
  · have hk : s'.rm.rsPayload rs = s.rm.rsPayload rs := hk
    cases hm : s.delivered with
    | none => exact hk
    | some msg =>
      have hne : ¬((s.rm.rsPayload rs).src1 = msg.rob ∨ (s.rm.rsPayload rs).src2 = msg.rob) :=
        fun h => hn _ (.inl ⟨hc, hb, hr, msg, hm, h, rfl⟩)
      rw [not_or] at hne
      exact hk.trans (rsMsgPayload_of_ne hne.1 hne.2).symm

end Step

omit [WideShift] in
theorem Latched.not_retired {slot : ℤ} (hr : s.rm.robReady slot = false) :
    ¬(s.retires = true ∧ slot = s.rm.robs.head) := by
  rintro ⟨h, rfl⟩
  simp [ready_of_commits (Latched.commits_of_retires h)] at hr

namespace Step
variable (st : Step s q p s' q') (ctl : Control s) (hc : s.rm.robs.clear = false)
include st ctl hc

theorem sublist_robs {a : ℤ} {l : List ℤ} (h : (a :: l).Sublist s.robs)
    (hr : s.rm.robReady a = false) : (a :: l).Sublist s'.robs := by
  rw [st.robs_eq hc ctl.robs]
  refine List.Sublist.trans ?_ (List.sublist_append_left _ _)
  split_ifs with ht
  · have hcons := robs_head ctl (Latched.commits_of_retires ht)
    rw [hcons] at h
    cases h with
    | cons _ h => exact h
    | cons_cons _ h => exact absurd ⟨ht, rfl⟩ (Latched.not_retired hr)
  · exact h

theorem sublist_dispatch {a : ℤ} (h : a ∈ s.robs) (hr : s.rm.robReady a = false)
    (hd : (s.dispatch p).isSome) : [a, s.rm.robs.tail].Sublist s'.robs := by
  rw [st.robs_eq hc ctl.robs, if_pos hd]
  change ([a] ++ [s.rm.robs.tail]).Sublist _
  refine List.Sublist.append (List.singleton_sublist.2 ?_) (List.Sublist.refl _)
  split_ifs with ht
  · have hcons := robs_head ctl (Latched.commits_of_retires ht)
    rw [hcons, List.mem_cons] at h
    exact h.resolve_left fun he => Latched.not_retired hr ⟨ht, he⟩
  · exact h

end Step

section
variable (ent : Entries s) (inv : Conserved s) (st : Step s q p s' q')
  (hc : s.rm.robs.clear = false)
include ent inv st hc

theorem Entries.not_ready {slot : ℤ} (hs : slot ∈ s.robs) (hr : s.rm.robReady slot = false)
    (hd : 0 ≤ (s.rm.robPayload slot).dest)
    (hm : ∀ msg, s.delivered = some msg → msg.rob ≠ robId slot) :
    s'.rm.robReady slot = false := by
  rw [← Bool.not_eq_true, st.robReady_iff inv.control hc hs (Latched.not_retired hr)]
  rintro (h | ⟨msg, h, he⟩ | ⟨rs, hf, rfl⟩)
  · simp [hr] at h
  · exact hm msg h he
  · obtain ⟨hb, hready⟩ := storePick_spec (storePick_of_frees hf)
    rw [(ent.entry _ hs).dest_of_store (ent.store_op inv hb (storeReady_busy hready))] at hd
    exact absurd hd (by decide)

theorem WaitsOn.step {src : RobId} {reg : RegId} (h : WaitsOn s rs src reg)
    (hd : (s'.rm.rsPayload rs).dest = (s.rm.rsPayload rs).dest) (hreg : 0 ≤ reg)
    (hm : ∀ msg, s.delivered = some msg → msg.rob ≠ src) : WaitsOn s' rs src reg where
  order := by
    rw [hd]
    exact st.sublist_robs inv.control hc h.order h.waiting
  waiting := by
    refine ent.not_ready inv st hc (h.order.subset List.mem_cons_self) h.waiting ?_ fun msg hd => ?_
    · rw [h.dest]
      exact hreg
    · rw [robId_robSlot]
      exact hm msg hd
  dest := by
    rw [← h.dest]
    exact (st.robPayload_same inv.control (h.order.subset List.mem_cons_self)).dest
  ne_zero := h.ne_zero

theorem waitsOn_dispatch (ren : Renamed s) {inst : Inst} (hd : s.dispatch p = some (rs, inst))
    {id : RegId} (hid : id ∈ regIds) (h : (instRegSet s id).src ≠ 0) :
    WaitsOn s' rs (instRegSet s id).src id := by
  obtain ⟨h0, hsrc, hready, hbus⟩ := instRegSet_src h
  have hrob := hsrc.trans (ren id hid h0)
  cases hw : s.writer id with
  | none => simp [hrob, hw] at h
  | some slot =>
    have hslot : robSlot (instRegSet s id).src = slot := by simp [hrob, hw]
    have hs := writer_mem hw
    have hdest : (s.rm.robPayload slot).dest = id :=
      of_decide_eq_true (List.mem_filter.1 (List.mem_of_getLast? hw)).2
    rw [hslot] at hready
    have hown := (st.entry_dispatch hd).1
    refine ⟨?_, ?_, ?_, h0⟩
    · rw [hslot, hown, robSlot_robId]
      exact st.sublist_dispatch inv.control hc hs hready (by simp [hd])
    · rw [hslot]
      refine ent.not_ready inv st hc hs hready (hdest ▸ regIds_nonneg hid) fun msg hm => ?_
      have := hbus msg (busGetData_of_delivered hm)
      rwa [hrob, hw] at this
    · rw [hslot, ← hdest]
      exact (st.robPayload_same inv.control hs).dest

end

omit [WideShift] in
theorem src1_elim {data : RsPayload} {o : Option CdbMessage}
    (h : (o.elim data (rsMsgPayload data)).src1 ≠ 0) :
    (o.elim data (rsMsgPayload data)).src1 = data.src1 ∧
      ∀ msg, o = some msg → msg.rob ≠ data.src1 := by
  cases o with
  | none => simp
  | some msg =>
    by_cases he : data.src1 = msg.rob
    · simp [rsMsgPayload, he] at h
    · simp [rsMsgPayload, he, Ne.symm he]

omit [WideShift] in
theorem src2_elim {data : RsPayload} {o : Option CdbMessage}
    (h : (o.elim data (rsMsgPayload data)).src2 ≠ 0) :
    (o.elim data (rsMsgPayload data)).src2 = data.src2 ∧
      ∀ msg, o = some msg → msg.rob ≠ data.src2 := by
  cases o with
  | none => simp
  | some msg =>
    by_cases he : data.src2 = msg.rob
    · simp [rsMsgPayload, he] at h
    · simp [rsMsgPayload, he, Ne.symm he]

namespace Linked
variable (ent : Entries s) (inv : Conserved s) (ren : Renamed s) (st : Step s q p s' q')
include ent inv ren st

/-- A step keeps the links of one of the two tags. -/
theorem step_tag {src : RsPayload → RobId} {reg : Inst → RegId}
    (hreg : ∀ inst, Legal inst → reg inst ∈ regIds)
    (hkeep : ∀ (data : RsPayload) (o : Option CdbMessage),
      src (o.elim data (rsMsgPayload data)) ≠ 0 →
        src (o.elim data (rsMsgPayload data)) = src data ∧
          ∀ msg, o = some msg → msg.rob ≠ src data)
    (hdisp : ∀ rs inst, s.dispatch p = some (rs, inst) → src (s'.rm.rsPayload rs) ≠ 0 →
      src (s'.rm.rsPayload rs) = (instRegSet s (reg inst)).src)
    (h : ∀ rs ∈ stations, s.rm.rsBusy rs = true → src (s.rm.rsPayload rs) ≠ 0 →
      WaitsOn s rs (src (s.rm.rsPayload rs)) (reg (s.entryOf rs).inst)) :
    ∀ rs ∈ stations, s'.rm.rsBusy rs = true → src (s'.rm.rsPayload rs) ≠ 0 →
      WaitsOn s' rs (src (s'.rm.rsPayload rs)) (reg (s'.entryOf rs).inst) := by
  intro rs hr hb hs
  cases hc : s.rm.robs.clear
  · have hrs := inv.control.rsClear.trans hc
    rcases (st.rsBusy hrs rs).1 hb with ⟨hb, -⟩ | hd
    · obtain ⟨hdest, hsame⟩ := Entries.entryOf_same inv st hr hb
      rw [st.rsPayload_busy hrs hr hb] at hs ⊢
      obtain ⟨he, hm⟩ := hkeep _ _ hs
      rw [he] at hs ⊢
      rw [hsame.inst]
      have hl := (ent.entry _ (inv.rs_open hr hb).1).legal
      exact (h rs hr hb hs).step ent inv st hc hdest (regIds_nonneg (hreg _ hl)) hm
    · obtain ⟨⟨rs, inst⟩, hm, rfl⟩ := List.mem_map.1 hd
      have hd := Option.mem_toList.1 hm
      have hl := (dispatch_decoded hd).2
      obtain ⟨-, hentry, -, hi⟩ := st.entry_dispatch hd
      have he := hdisp rs inst hd hs
      rw [he] at hs ⊢
      rw [hentry, hi]
      exact waitsOn_dispatch ent inv st hc ren hd (hreg inst hl) hs
  · simp [(st.quiet inv.control hc).rsBusy rs hr] at hb

theorem step (lk : Linked s) : Linked s' := by
  have hsrc : ∀ rs inst, s.dispatch p = some (rs, inst) →
      (inst.opcode = Opcode.load → (s.rm.rsPayload rs).src2 = 0) := fun rs inst hd ho => by
    refine ent.load rs ?_
    have := (dispatch_spec hd).2.2.1
    rwa [(dispatch_decoded hd).2.instType_load_iff.2 ho] at this
  constructor
  · refine step_tag ent inv ren st (fun _ hl => hl.rs1) (fun _ _ => src1_elim) ?_ lk.src1
    intro rs inst hd
    rw [st.rsPayload_dispatch hd]
    exact (dispatchRsPayload_src (dispatch_decoded hd).2 (hsrc rs inst hd)).1
  · refine step_tag ent inv ren st (fun _ hl => hl.rs2) (fun _ _ => src2_elim) ?_ lk.src2
    intro rs inst hd
    rw [st.rsPayload_dispatch hd]
    exact (dispatchRsPayload_src (dispatch_decoded hd).2 (hsrc rs inst hd)).2

end Linked

/-- What is known of every reachable state about entries, stations and names. -/
structure Coherent (s : Latched) : Prop where
  conserved : Conserved s
  renamed : Renamed s
  entries : Entries s
  linked : Linked s

theorem Coherent.step (h : Coherent s) (st : Step s q p s' q') : Coherent s' where
  conserved := h.conserved.step st
  renamed := h.renamed.step st h.conserved.control
  entries := h.entries.step h.conserved st
  linked := Linked.step h.entries h.conserved h.renamed st h.linked

section
variable (image : MemData) (garbage : ℤ → ℤ → ℤ) (hist : ℤ)

omit [WideShift] in
theorem coherent_cpuCreate : Coherent (latch (cpuCreate image garbage hist)) where
  conserved := conserved_cpuCreate image garbage hist
  renamed := renamed_cpuCreate image garbage hist
  entries := entries_cpuCreate image garbage hist
  linked := ⟨fun _ _ hb => (by cases hb), fun _ _ hb => (by cases hb)⟩

theorem coherent_of_cpuRun {os : List Schedule} {c : Cpu}
    (hr : cpuRun os (cpuCreate image garbage hist) = .ok c) : Coherent (latch c) :=
  cpuRun_induction (I := fun s _ => Coherent s) (coherent_cpuCreate image garbage hist)
    (fun inv st => inv.step st) hr

/-- On every run that trips no assertion a source tag of a busy station is the id of
    an entry that is not ready and older than the station's own. -/
theorem no_missed_wakeup {os : List Schedule} {c : Cpu}
    (hr : cpuRun os (cpuCreate image garbage hist) = .ok c) {rs : RsId} (hs : rs ∈ stations)
    (hb : (latch c).rm.rsBusy rs = true) {tag : RobId}
    (ht : tag = ((latch c).rm.rsPayload rs).src1 ∨ tag = ((latch c).rm.rsPayload rs).src2)
    (h0 : tag ≠ 0) :
    [robSlot tag, robSlot ((latch c).rm.rsPayload rs).dest].Sublist (latch c).robs ∧
      (latch c).rm.robReady (robSlot tag) = false := by
  have lk := (coherent_of_cpuRun image garbage hist hr).linked
  rcases ht with rfl | rfl
  · have h := lk.src1 rs hs hb h0
    exact ⟨h.order, h.waiting⟩
  · have h := lk.src2 rs hs hb h0
    exact ⟨h.order, h.waiting⟩

end

omit [WideShift] in
/-- The use of the link register waits for the jump. -/
theorem no_missed_wakeup_link : (latch (bootCpu 2 linkProgram)).rm.robReady 0 = false :=
  (@no_missed_wakeup .masked _ _ _ _ _ (@cpuRun_boot 2 linkProgram (by decide +kernel)) 2
    (by decide) (by decide +kernel) 1 (by decide +kernel) (by decide)).2

end TomasuloCpu
