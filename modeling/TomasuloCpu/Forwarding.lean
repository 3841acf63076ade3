import TomasuloCpu.Boot
import TomasuloCpu.Wakeup

set_option autoImplicit false

/-!
# Forwarding

Where captured operands come from, and how they compare with what the entry that
produced them writes when it retires. The message of a JALR carries the address
that it jumps to, not the link that it writes.
-/
namespace TomasuloCpu
open Clocked

/-- The numbers of the retired instructions and of those in the reorder buffer, in
    program order. -/
def seqs (s : Latched) (q : Plain) : List ℕ :=
  q.retired.map RobPayload.seq ++ s.robs.map fun slot => (s.rm.robPayload slot).seq

structure Numbered (s : Latched) (q : Plain) : Prop where
  sorted : (seqs s q).Pairwise (· < ·)
  bound : ∀ n ∈ seqs s q, n < q.dispatched

def RobPayload.forwarded (data : RobPayload) (route : Route) : Word :=
  if route = .entry ∨ data.op ≠ .jalr then data.value else data.addr

/-- A captured operand is what its route hands on of the entry. -/
structure Forwards (data : RobPayload) (reg : RegId) (route : Route) (value : Word) : Prop where
  dest : data.dest = reg
  value : value = data.forwarded route

/-- Every captured operand is that of an entry that is complete, or was retired or
    flushed since. -/
structure Captures (s : Latched) (q : Plain) : Prop where
  numbered : Numbered s q
  waiting : ∀ {seq reg route rob producer value},
    .capture seq reg route rob producer value ∈ q.log →
      0 < reg ∧ producer < q.dispatched ∧
      ∀ slot ∈ s.robs, (s.rm.robPayload slot).seq = producer →
        robId slot = rob ∧ s.rm.robReady slot = true ∧
          Forwards (s.rm.robPayload slot) reg route value
  retired : ∀ {seq reg route rob producer value},
    .capture seq reg route rob producer value ∈ q.log →
      ∀ data ∈ q.retired, data.seq = producer → Forwards data reg route value

variable {s s' : Latched} {q p q' : Plain}

theorem writer_spec {x : RegId} {slot : ℤ} (h : s.writer x = some slot) :
    slot ∈ s.robs ∧ (s.rm.robPayload slot).dest = x := by
  have hm := List.mem_of_getLast? h
  rw [List.mem_filter] at hm
  exact ⟨hm.1, by simpa using hm.2⟩

theorem instRegSet_route {id : RegId} {route : Route} (h : (instRegSet s id).route = some route) :
    id ≠ 0 ∧ s.robIds id ≠ 0 ∧
      ((route = .entry ∧ s.rm.robReady (robSlot (s.robIds id)) = true ∧
          (instRegSet s id).value = (s.rm.robPayload (robSlot (s.robIds id))).value) ∨
        (route = .bus ∧ ∃ msg, busGetData s = some msg ∧ msg.rob = s.robIds id ∧
          (instRegSet s id).value = msg.result)) := by
  simp only [instRegSet, regStoreRobIdGet] at h ⊢
  by_cases h0 : id = 0
  · simp [h0] at h
  by_cases hr : s.robIds id = 0
  · simp [h0, hr] at h
  simp only [h0, hr, ↓reduceIte, not_false_eq_true, ne_eq, true_and] at h ⊢
  cases hb : s.rm.robReady (robSlot (s.robIds id))
  · simp only [hb, Bool.false_eq_true, ↓reduceIte] at h ⊢
    cases hg : busGetData s with
    | none => simp [hg] at h
    | some cdb =>
      simp only [hg] at h ⊢
      split_ifs at h ⊢ with hc
      · cases h
        exact .inr ⟨rfl, cdb, rfl, hc, rfl⟩
  · simp only [hb, ↓reduceIte, Option.some.injEq] at h ⊢
    exact .inl ⟨h.symm, trivial, trivial⟩

theorem Control.delivered_of_dispatch (ctl : Control s) (hc : s.rm.robs.clear = false)
    {msg : CdbMessage} (h : busGetData s = some msg) : s.delivered = some msg := by
  have hb : s.rm.busClear = 0 := by
    rcases ctl.busClear with ⟨-, hr⟩ | ⟨-, -, hq⟩ | ⟨h0, -⟩
    · simp [hc] at hr
    · simp [busGetData, hq.fire] at h
    · exact h0
  simp [Latched.delivered, hb, h]

theorem operand_mem_regIds {inst : Inst} (hl : Legal inst) {reg : RegId}
    (h : reg ∈ dispatchOperands inst) : reg ∈ regIds := by
  have h1 := hl.rs1
  have h2 := hl.rs2
  unfold dispatchOperands at h
  split at h <;> simp at h <;> rcases h with rfl | rfl <;> assumption

/-- The entry that an operand is captured from. -/
theorem Coherent.capture_source (co : Coherent s) {seq : ℕ} {reg : RegId} {route : Route}
    {rob : RobId} {producer : ℕ} {value : Word}
    (h : Logged s q.data p (.capture seq reg route rob producer value)) :
    s.rm.robs.clear = false ∧ 0 < reg ∧ ∃ slot ∈ s.robs, robId slot = rob ∧
      (s.rm.robPayload slot).seq = producer ∧ (s.rm.robPayload slot).dest = reg ∧
      ((route = .entry ∧ s.rm.robReady slot = true ∧ value = (s.rm.robPayload slot).value) ∨
        (route ≠ .entry ∧ ∃ msg, s.delivered = some msg ∧ msg.rob = rob ∧ value = msg.result)) := by
  have ctl := co.conserved.control
  rcases h with ⟨hr, rfl, msg, hm, rfl, rfl, rfl, id, hid, hb, -, hsrc⟩ |
    ⟨rs, inst, hd, hreg, hroute, -, rfl, rfl, rfl⟩
  · obtain ⟨hopen, -, -⟩ := co.conserved.rs_open hid hb
    have hl := (co.entries.entry _ hopen).legal
    have hw : WaitsOn s id msg.rob reg ∧ reg ∈ regIds := by
      have h0 := co.conserved.delivered_ne_zero hm
      rcases hsrc with ⟨hs, rfl⟩ | ⟨hs, rfl⟩
      · have := co.linked.src1 id hid hb (by rwa [hs])
        exact ⟨by rwa [hs] at this, hl.rs1⟩
      · have := co.linked.src2 id hid hb (by rwa [hs])
        exact ⟨by rwa [hs] at this, hl.rs2⟩
    obtain ⟨hmem, -, hseq⟩ := co.conserved.delivered_open hm
    exact ⟨ctl.rsClear.symm.trans hr, regIds_pos hw.2 hw.1.ne_zero, robSlot msg.rob, hmem,
      robId_robSlot _, hseq, hw.1.dest, .inr ⟨by simp, msg, hm, rfl, rfl⟩⟩
  · have hc : s.rm.robs.clear = false :=
      ctl.forcePc.symm.trans (dispatch_spec hd).2.2.2.2.1
    obtain ⟨h0, hrob, hcases⟩ := instRegSet_route hroute
    have hmem := operand_mem_regIds (dispatch_decoded hd).2 hreg
    have hren := co.renamed reg hmem h0
    cases hw : s.writer reg with
    | none => exact absurd (by rw [hren, hw]; rfl) hrob
    | some slot =>
      have hid : s.robIds reg = robId slot := by
        rw [hren, hw]
        rfl
      obtain ⟨hslot, hdest⟩ := writer_spec hw
      have hget : regStoreRobIdGet s reg = robId slot := by
        rw [regStoreRobIdGet, if_neg h0, hid]
      rw [hget, robSlot_robId]
      rw [hid, robSlot_robId] at hcases
      refine ⟨hc, regIds_pos hmem h0, slot, hslot, rfl, rfl, hdest, ?_⟩
      rcases hcases with h | ⟨rfl, msg, hm, hr, hv⟩
      · exact .inl h
      · exact .inr ⟨by simp, msg, ctl.delivered_of_dispatch hc hm, hr, hv⟩

variable [WideShift]

namespace Step
variable (st : Step s q p s' q') (ctl : Control s)
include st ctl

theorem seqs_eq (hc : s.rm.robs.clear = false) : seqs s' q' =
    seqs s q ++ if (s.dispatch p).isSome then [q.dispatched] else [] := by
  have hkeep : ∀ l : List ℤ, (∀ slot ∈ l, slot ∈ s.robs) →
      l.map (fun slot => (s'.rm.robPayload slot).seq) =
        l.map fun slot => (s.rm.robPayload slot).seq := fun l hl =>
    List.map_congr_left fun slot hs => (st.robPayload_same ctl (hl slot hs)).seq
  have hnew : (if (s.dispatch p).isSome then [s.rm.robs.tail] else []).map
      (fun slot => (s'.rm.robPayload slot).seq) =
        if (s.dispatch p).isSome then [q.dispatched] else [] := by
    cases hd : s.dispatch p with
    | none => rfl
    | some d =>
      obtain ⟨rs, inst⟩ := d
      simp [st.robPayload_dispatch hd, dispatchRobPayload_seq]
  rw [seqs, seqs, st.retired, st.robs_eq hc ctl.robs, List.map_append, List.map_append, hnew,
    ← List.append_assoc]
  congr 1
  cases hr : s.retires
  · simp [Latched.retired, hr, hkeep s.robs fun _ h => h]
  · have hcons := robs_head ctl (Latched.commits_of_retires hr)
    have htail := hkeep s.robs.tail fun _ h => List.mem_of_mem_tail h
    rw [hcons, List.map_cons]
    simp [Latched.retired, hr, htail, Latched.head]

theorem seqs_clear (hc : s.rm.robs.clear = true) : seqs s' q' = q.retired.map RobPayload.seq := by
  have hr : s.retired = none := by simp [Latched.retired, Latched.retires, Latched.commits, hc]
  simp [seqs, st.retired, hr, (st.quiet ctl hc).robs]

end Step

theorem Numbered.step (num : Numbered s q) (st : Step s q p s' q') (ctl : Control s) :
    Numbered s' q' := by
  have hle : q.dispatched ≤ q'.dispatched := by
    rw [st.dispatched]
    exact Nat.le_add_right _ _
  cases hc : s.rm.robs.clear
  · have heq := st.seqs_eq ctl hc
    have hbound : ∀ n ∈ seqs s' q', n < q'.dispatched := by
      intro n hn
      rw [heq, List.mem_append] at hn
      rcases hn with hn | hn
      · exact Nat.lt_of_lt_of_le (num.bound n hn) hle
      · split_ifs at hn with hd
        · rw [List.mem_singleton] at hn
          rw [hn, st.dispatched, if_pos hd]
          exact Nat.lt_succ_self _
        · cases hn
    refine ⟨?_, hbound⟩
    rw [heq, List.pairwise_append]
    refine ⟨num.sorted, by split_ifs <;> simp, fun a ha b hb => ?_⟩
    split_ifs at hb
    · rw [List.mem_singleton] at hb
      exact hb ▸ num.bound a ha
    · cases hb
  · have heq := st.seqs_clear ctl hc
    have hsub : (seqs s' q').Sublist (seqs s q) := heq ▸ List.sublist_append_left _ _
    exact ⟨num.sorted.sublist hsub,
      fun n hn => Nat.lt_of_lt_of_le (num.bound n (hsub.subset hn)) hle⟩

namespace Numbered
variable (num : Numbered s q)
include num

omit [WideShift] in
theorem slot_inj {i j : ℤ} (hi : i ∈ s.robs) (hj : j ∈ s.robs)
    (h : (s.rm.robPayload i).seq = (s.rm.robPayload j).seq) : i = j := by
  have hn : (s.robs.map fun slot => (s.rm.robPayload slot).seq).Nodup :=
    (num.sorted.sublist (List.sublist_append_right _ _)).imp Nat.ne_of_lt
  exact List.inj_on_of_nodup_map hn hi hj h

omit [WideShift] in
theorem retired_lt {data : RobPayload} (hd : data ∈ q.retired) {slot : ℤ} (hs : slot ∈ s.robs) :
    data.seq < (s.rm.robPayload slot).seq :=
  (List.pairwise_append.1 num.sorted).2.2 _ (List.mem_map_of_mem hd) _ (List.mem_map_of_mem hs)

omit [WideShift] in
theorem slot_bound {slot : ℤ} (hs : slot ∈ s.robs) : (s.rm.robPayload slot).seq < q.dispatched :=
  num.bound _ (List.mem_append_right _ (List.mem_map_of_mem hs))

end Numbered

omit [WideShift] in
theorem mem_retired_step (h : q'.retired = q.retired ++ s.retired.toList) {data : RobPayload}
    (hd : data ∈ q'.retired) : data ∈ q.retired ∨ (s.retires = true ∧ data = s.head) := by
  rw [h, List.mem_append, Latched.retired] at hd
  refine hd.imp_right fun hd => ?_
  split_ifs at hd with hr
  · exact ⟨hr, by simpa using hd⟩
  · cases hd

section
variable (cap : Captures s q) (co : Coherent s) (st : Step s q p s' q')
include cap co st

theorem Captures.step_old {seq : ℕ} {reg : RegId} {route : Route} {rob : RobId} {producer : ℕ}
    {value : Word} (h : .capture seq reg route rob producer value ∈ q.log) :
    (∀ slot ∈ s'.robs, (s'.rm.robPayload slot).seq = producer →
      robId slot = rob ∧ s'.rm.robReady slot = true ∧
        Forwards (s'.rm.robPayload slot) reg route value) ∧
    ∀ data ∈ q'.retired, data.seq = producer → Forwards data reg route value := by
  have ctl := co.conserved.control
  obtain ⟨-, hlt, hw⟩ := cap.waiting h
  constructor
  · intro slot hs hseq
    cases hc : s.rm.robs.clear
    · rcases (st.mem_robs ctl hc).1 hs with ⟨hold, -⟩ | ⟨hd, rfl⟩
      · rw [(st.robPayload_same ctl hold).seq] at hseq
        obtain ⟨hid, hready, hf⟩ := hw slot hold hseq
        obtain ⟨hready', hdata⟩ := co.conserved.stable st hold hready hs
        exact ⟨hid, hready', hdata ▸ hf⟩
      · obtain ⟨⟨rs, inst⟩, hd⟩ := Option.isSome_iff_exists.1 hd
        rw [st.robPayload_dispatch hd, dispatchRobPayload_seq] at hseq
        omega
    · rw [(st.quiet ctl hc).robs] at hs
      cases hs
  · intro data hd hseq
    rcases mem_retired_step st.retired hd with hd | ⟨hr, rfl⟩
    · exact cap.retired h data hd hseq
    · exact (hw _ (head_mem ctl (Latched.commits_of_retires hr)) hseq).2.2

theorem Captures.step_new {seq : ℕ} {reg : RegId} {route : Route} {rob : RobId} {producer : ℕ}
    {value : Word} (h : Logged s q.data p (.capture seq reg route rob producer value)) :
    0 < reg ∧ producer < q.dispatched ∧
    (∀ slot ∈ s'.robs, (s'.rm.robPayload slot).seq = producer →
      robId slot = rob ∧ s'.rm.robReady slot = true ∧
        Forwards (s'.rm.robPayload slot) reg route value) ∧
    ∀ data ∈ q'.retired, data.seq = producer → Forwards data reg route value := by
  have ctl := co.conserved.control
  obtain ⟨hc, hpos, slot₀, hs₀, hid₀, hseq₀, hdest, hcases⟩ := co.capture_source h
  refine ⟨hpos, hseq₀ ▸ cap.numbered.slot_bound hs₀, fun slot hs hseq => ?_,
    fun data hd hseq => ?_⟩
  · rcases (st.mem_robs ctl hc).1 hs with ⟨hold, hkeep⟩ | ⟨hd, rfl⟩
    · have hsame := st.robPayload_same ctl hold
      obtain rfl : slot = slot₀ := cap.numbered.slot_inj hold hs₀ (by rw [← hsame.seq, hseq, hseq₀])
      rcases hcases with ⟨rfl, hready, rfl⟩ | ⟨hne, msg, hm, hrob, rfl⟩
      · obtain ⟨hready', hdata⟩ := co.conserved.stable st hold hready hs
        rw [hdata]
        exact ⟨hid₀, hready', hdest, by simp [RobPayload.forwarded]⟩
      · have hmsg : msg.rob = robId slot := hrob.trans hid₀.symm
        have hdata : s'.rm.robPayload slot = robMsgPayload (s.rm.robPayload slot) msg :=
          st.written (r := .robPayload slot) (.inl ⟨hc, hold, msg, hm, hmsg, rfl⟩)
        refine ⟨hid₀, (st.robReady_iff ctl hc hold hkeep).2 (.inr (.inl ⟨msg, hm, hmsg⟩)),
          hsame.dest.trans hdest, ?_⟩
        rw [hdata, RobPayload.forwarded, robMsgPayload]
        split_ifs <;> simp_all
    · obtain ⟨⟨rs, inst⟩, hd⟩ := Option.isSome_iff_exists.1 hd
      rw [st.robPayload_dispatch hd, dispatchRobPayload_seq] at hseq
      have := cap.numbered.slot_bound hs₀
      omega
  · rcases mem_retired_step st.retired hd with hd | ⟨hr, rfl⟩
    · have := cap.numbered.retired_lt hd hs₀
      omega
    · have hcm := Latched.commits_of_retires hr
      have hhead := head_mem ctl hcm
      obtain rfl := cap.numbered.slot_inj hhead hs₀ (hseq.trans hseq₀.symm)
      rcases hcases with ⟨rfl, -, rfl⟩ | ⟨-, msg, hm, hrob, -⟩
      · exact ⟨hdest, by simp [RobPayload.forwarded, Latched.head]⟩
      · -- an entry whose message is delivered in this tick is not ready to retire
        have hopen := (co.conserved.delivered_open hm).2.1
        rw [hrob, ← hid₀, robSlot_robId, ready_of_commits hcm] at hopen
        cases hopen

theorem Captures.step : Captures s' q' where
  numbered := cap.numbered.step st co.conserved.control
  waiting := fun {seq reg route rob producer value} h => by
    have hle : q.dispatched ≤ q'.dispatched := by
      rw [st.dispatched]
      exact Nat.le_add_right _ _
    rcases st.mem_log.1 h with h | h
    · obtain ⟨hpos, hlt, -⟩ := cap.waiting h
      exact ⟨hpos, Nat.lt_of_lt_of_le hlt hle, (cap.step_old co st h).1⟩
    · obtain ⟨hpos, hlt, hw, -⟩ := cap.step_new co st h
      exact ⟨hpos, Nat.lt_of_lt_of_le hlt hle, hw⟩
  retired := fun {seq reg route rob producer value} h => by
    rcases st.mem_log.1 h with h | h
    · exact (cap.step_old co st h).2
    · exact (cap.step_new co st h).2.2.2

end

section
variable (image : MemData) (garbage : ℤ → ℤ → ℤ) (hist : ℤ)

omit [WideShift] in
theorem captures_cpuCreate : Captures (latch (cpuCreate image garbage hist))
    (cpuCreate image garbage hist).plain where
  numbered := ⟨.nil, fun n hn => by cases hn⟩
  waiting := fun h => by cases h
  retired := fun h => by cases h

theorem captures_of_cpuRun {os : List Schedule} {c : Cpu}
    (hr : cpuRun os (cpuCreate image garbage hist) = .ok c) : Captures (latch c) c.plain :=
  (cpuRun_induction (I := fun s q => Coherent s ∧ Captures s q)
    ⟨coherent_cpuCreate image garbage hist, captures_cpuCreate image garbage hist⟩
    (fun inv st => ⟨inv.1.step st, inv.2.step inv.1 st⟩) hr).2

end

theorem Step.register_head (st : Step s q p s' q') {data : RobPayload} (hok : EntryOk data)
    (hr : s.retires = true) (hd : s.head = data) (hpos : 0 < data.dest) :
    s'.rm.register data.dest = data.value := by
  subst hd
  have hcm := Latched.commits_of_retires hr
  refine st.written (r := .register s.head.dest) ⟨?_, rfl, rfl⟩
  have h0 : s.head.dest ≠ 0 := Int.ne_of_gt hpos
  have hge : 0 ≤ s.head.dest := Int.le_of_lt hpos
  cases ho : s.head.op with
  | store =>
    rw [hok.dest_of_store ho] at hpos
    exact absurd hpos (by decide)
  | hcf => simp [Latched.retires, ho] at hr
  | register | branch | jalr => simp [Latched.writesHead, hcm, ho, h0, hge]

section
variable {image : MemData} {garbage : ℤ → ℤ → ℤ} {hist : ℤ}

/-- In every run an operand that is captured from an entry is what the entry writes
    when it retires, if and only if it is read from the entry, or the entry is no
    JALR, or the JALR jumps to the instruction after it. -/
theorem forwarded_operand {os os' : List Schedule} {o : Schedule} {c c' c'' : Cpu}
    (hr : cpuRun os (cpuCreate image garbage hist) = .ok c) (ht : cpuTick o c = .ok c')
    (hr' : cpuRun os' c' = .ok c'') {seq : ℕ} {reg : RegId} {route : Route} {rob : RobId}
    {producer : ℕ} {value : Word}
    (hcap : .capture seq reg route rob producer value ∈ c''.plain.log)
    (hret : (latch c).retires = true) (hp : (latch c).head.seq = producer) :
    (latch c).head.dest = reg ∧
      (value = (latch c').rm.register reg ↔ route = .entry ∨ (latch c).head.op ≠ .jalr ∨
        (latch c).head.addr = (latch c).head.pc + instSize) := by
  have co := coherent_of_cpuRun image garbage hist hr
  have hcm := Latched.commits_of_retires hret
  obtain ⟨p, st⟩ := step_of_cpuTick ht
  have hhead := head_mem co.conserved.control hcm
  have hok : EntryOk (latch c).head := co.entries.entry _ hhead
  have hmem : (latch c).head ∈ c''.plain.retired := by
    refine cpuRun_induction (I := fun _ q => (latch c).head ∈ q.retired) ?_ (fun h st => ?_) hr'
    · simp [st.retired, Latched.retired, hret]
    · rw [st.retired]
      exact List.mem_append_left _ h
  have hrun : cpuRun (os ++ o :: os') (cpuCreate image garbage hist) = .ok c'' := by
    rw [cpuRun_append, hr]
    exact bind_ok.2 ⟨c, rfl, bind_ok.2 ⟨c', ht, hr'⟩⟩
  have cap := captures_of_cpuRun image garbage hist hrun
  obtain ⟨rfl, hv⟩ := cap.retired hcap _ hmem hp
  have hw := st.register_head hok hret rfl (cap.waiting hcap).1
  refine ⟨rfl, ?_⟩
  rw [hw, hv, RobPayload.forwarded]
  split_ifs with h
  · simp only [true_iff]
    exact h.imp_right .inl
  · rw [not_or, not_not] at h
    rw [hok.link h.2]
    simp [h.1, h.2]

end

omit [WideShift] in
theorem forwarded_operand_link : (latch (bootCpu 5 linkProgram)).head.dest = 1 ∧
    (8 = (latch (bootCpu 6 linkProgram)).rm.register 1 ↔ Route.listener = .entry ∨
      (latch (bootCpu 5 linkProgram)).head.op ≠ .jalr ∨
        (latch (bootCpu 5 linkProgram)).head.addr =
          (latch (bootCpu 5 linkProgram)).head.pc + instSize) :=
  @forwarded_operand .masked _ _ _ (bootTicks 5) [] .inOrder (bootCpu 5 linkProgram)
    (bootCpu 6 linkProgram) (bootCpu 6 linkProgram) (cpuRun_boot (by decide +kernel))
    (cpuTick_boot (by decide +kernel)) rfl 1 1 .listener 1 0 8 (by decide +kernel)
    (by decide +kernel) (by decide +kernel)

omit [WideShift] in
/-- The use of the link register gets the address that the JALR jumps to, 8; the
    JALR writes the link, 4. -/
theorem link_not_forwarded :
    @cpuRun .masked (bootTicks 6) (boot linkProgram) = .ok (bootCpu 6 linkProgram) ∧
      .capture 1 1 .listener 1 0 8 ∈ (bootCpu 6 linkProgram).plain.log ∧
      (∃ data ∈ (bootCpu 6 linkProgram).plain.retired,
        data.seq = 0 ∧ data.dest = 1 ∧ data.value = 4) ∧
      (latch (bootCpu 6 linkProgram)).rm.register 1 = 4 :=
  ⟨cpuRun_boot (by decide +kernel), by decide +kernel, by decide +kernel, by decide +kernel⟩

end TomasuloCpu
