import Mathlib.Data.List.Induction
import TomasuloCpu.Arch
import TomasuloCpu.Forwarding
import TomasuloCpu.LoadOrder
import TomasuloCpu.Registers

set_option autoImplicit false

/-!
# Operands and results

The entries of the reorder buffer, executed one after the other on the registers
and the memory that the retired ones left, give the operands that stations hold
and the results that are on their way.
-/
namespace TomasuloCpu
open Clocked

section
variable [WideShift]

def Arch.after (a : Arch) (ds : List RobPayload) : Arch :=
  ds.foldl (fun a data => a.step data.inst data.pc) a

/-- The state that the retired instructions left. -/
def Latched.committed (s : Latched) (mem : MemData) : Arch := ⟨fun x => s.rm.register x, mem⟩

/-- The state that the instruction of an entry starts from. -/
def Latched.archAt (s : Latched) (mem : MemData) (slot : ℤ) : Arch :=
  (s.committed mem).after ((s.older slot).map s.rm.robPayload)

def Latched.archEnd (s : Latched) (mem : MemData) : Arch :=
  (s.committed mem).after (s.robs.map s.rm.robPayload)

def Latched.writerBefore (s : Latched) (slot : ℤ) (x : RegId) : Option ℤ :=
  ((s.older slot).filter fun i => (s.rm.robPayload i).dest = x).getLast?

namespace Arch
variable {a : Arch} {ds es : List RobPayload}

theorem after_append : a.after (ds ++ es) = (a.after ds).after es := List.foldl_append

theorem after_congr {f g : ℤ → RobPayload} {l : List ℤ}
    (h : ∀ i ∈ l, (g i).inst = (f i).inst ∧ (g i).pc = (f i).pc) :
    a.after (l.map g) = a.after (l.map f) := by
  induction l generalizing a with
  | nil => rfl
  | cons i l ih =>
    simp only [List.map_cons, after, List.foldl_cons]
    rw [(h i List.mem_cons_self).1, (h i List.mem_cons_self).2]
    exact ih fun j hj => h j (List.mem_cons_of_mem _ hj)

theorem data_after (h : ∀ data ∈ ds, data.inst.opcode ≠ Opcode.store) :
    (a.after ds).data = a.data := by
  induction ds generalizing a with
  | nil => rfl
  | cons d ds ih =>
    rw [after, List.foldl_cons]
    exact (ih fun e he => h e (List.mem_cons_of_mem _ he)).trans
      (a.data_step (h d List.mem_cons_self) _)

theorem get_after {f : ℤ → RobPayload} {l : List ℤ} (hl : l.Nodup) (ok : ∀ i ∈ l, EntryOk (f i))
    {x : RegId} (hx : x ∈ regIds) (h0 : x ≠ 0) : (a.after (l.map f)).get x =
      ((l.filter fun i => (f i).dest = x).getLast?).elim (a.get x) fun w =>
        (a.after ((l.takeWhile fun i => i ≠ w).map f)).value (f w).inst (f w).pc := by
  induction l using List.reverseRecOn with
  | nil => rfl
  | append_singleton l i ih =>
    have hn : l.Nodup ∧ i ∉ l := by
      rw [List.nodup_append'] at hl
      exact ⟨hl.1, fun hi => hl.2.2 hi (List.mem_singleton_self i)⟩
    have oki := ok i (by simp)
    have hd : (hasDest (f i).inst = true ∧ (f i).inst.rd = x ∧ x ≠ 0) ↔ (f i).dest = x := by
      rw [oki.dest]
      have hpos := regIds_pos hx h0
      by_cases hh : hasDest (f i).inst = true
      · simp [hh, h0]
      · rw [if_neg hh]
        constructor
        · exact fun h => absurd h.1 hh
        · rintro rfl
          exact absurd hpos (by decide)
    rw [List.map_append, after_append]
    change ((a.after (l.map f)).step (f i).inst (f i).pc).get x = _
    rw [get_step _ oki.legal, List.filter_append]
    by_cases hi : (f i).dest = x
    · rw [if_pos (hd.2 hi)]
      have htake : (l ++ [i]).takeWhile (fun j => j ≠ i) = l := by
        rw [List.takeWhile_append, takeWhile_ne_self hn.2]
        simp
      have hlast : [i].filter (fun i => (f i).dest = x) = [i] := by simp [hi]
      rw [hlast, List.getLast?_concat, Option.elim_some, htake]
    · rw [if_neg (mt hd.1 hi), ih hn.1 fun j hj => ok j (List.mem_append_left _ hj)]
      simp only [List.filter_cons, hi, decide_false, Bool.false_eq_true, ↓reduceIte,
        List.filter_nil, List.append_nil]
      cases hw : (l.filter fun i => (f i).dest = x).getLast? with
      | none => rfl
      | some w =>
        have hm : w ∈ l := List.mem_of_mem_filter (List.mem_of_getLast? hw)
        simp only [Option.elim_some, takeWhile_ne_append hm]

end Arch

variable {s s' : Latched} {q p q' : Plain} {slot w : ℤ} {x : RegId} {mem : MemData}

omit [WideShift] in
theorem getLast?_filter_append {P : ℤ → Bool} {l l' : List ℤ} {w : ℤ}
    (h : ((l ++ l').filter P).getLast? = some w) (hw : w ∉ l) :
    (l'.filter P).getLast? = some w := by
  rw [List.filter_append] at h
  cases hl : l'.filter P with
  | nil =>
    rw [hl, List.append_nil] at h
    exact absurd (List.mem_of_mem_filter (List.mem_of_getLast? h)) hw
  | cons a as =>
    rw [hl, List.getLast?_append_of_ne_nil _ (by simp)] at h
    exact h

omit [WideShift] in
theorem older_older (h : w ∈ s.older slot) :
    (s.older slot).takeWhile (fun i => i ≠ w) = s.older w := by
  have hl : s.robs = s.older slot ++ s.robs.dropWhile fun i => i ≠ slot :=
    (List.takeWhile_append_dropWhile ..).symm
  conv_rhs => rw [Latched.older, hl, takeWhile_ne_append h]

omit [WideShift] in
theorem writerBefore_spec (h : s.writerBefore slot x = some w) :
    w ∈ s.older slot ∧ (s.rm.robPayload w).dest = x := by
  have hm := List.mem_of_getLast? h
  rw [List.mem_filter] at hm
  exact ⟨hm.1, by simpa using hm.2⟩

variable (ctl : Control s) (ent : Entries s) (hx : x ∈ regIds) (h0 : x ≠ 0)
include ctl ent hx h0

theorem archAt_get : (s.archAt mem slot).get x =
    (s.writerBefore slot x).elim (s.rm.register x) fun w =>
      (s.archAt mem w).value (s.rm.robPayload w).inst (s.rm.robPayload w).pc := by
  have hnd : (s.older slot).Nodup :=
    ctl.robs.queueForeach_nodup.sublist (List.takeWhile_sublist _)
  rw [Latched.archAt, Arch.get_after hnd (fun i hi => ent.entry i (older_subset hi)) hx h0]
  change (s.writerBefore slot x).elim _ _ = _
  cases hw : s.writerBefore slot x with
  | none => simp [Latched.committed, Arch.get, h0]
  | some w => rw [Option.elim_some, Option.elim_some, older_older (writerBefore_spec hw).1]; rfl

theorem archEnd_get : (s.archEnd mem).get x =
    (s.writer x).elim (s.rm.register x) fun w =>
      (s.archAt mem w).value (s.rm.robPayload w).inst (s.rm.robPayload w).pc := by
  have hnd : s.robs.Nodup := ctl.robs.queueForeach_nodup
  rw [Latched.archEnd, Arch.get_after hnd ent.entry hx h0]
  change (s.writer x).elim _ _ = _
  cases hw : s.writer x with
  | none => simp [Latched.committed, Arch.get, h0]
  | some w => rfl

end

section
variable [WideShift] {s s' : Latched} {q p q' : Plain} {image : MemData} {slot : ℤ}

def HeadResolved (image : MemData) (s : Latched) (q : Plain) : Prop :=
  s.retires = true → Resolved (s.committed (q.memory image)) s.head

omit [WideShift] in
theorem writesHead_iff (ok : EntryOk s.head) :
    s.writesHead = true ↔ s.retires = true ∧ 0 < s.head.dest := by
  simp only [Latched.writesHead, Latched.retires]
  cases ho : s.head.op with
  | register =>
    have hm := ok.dest_mem (by simp [ho])
    have hpos : s.head.dest ≠ 0 ↔ 0 < s.head.dest := ⟨regIds_pos hm, Int.ne_of_gt⟩
    simp [hpos]
  | store => simp [ok.dest_of_store ho]
  | hcf => simp
  | branch | jalr =>
    have hpos : (0 ≤ s.head.dest ∧ s.head.dest ≠ 0) ↔ 0 < s.head.dest := by
      rw [Int.lt_iff_le_and_ne, ne_comm]
    simp [and_assoc, hpos]

namespace Step
variable (st : Step s q p s' q') (ctl : Control s) (ent : Entries s)
include st ctl ent

/-- The register file changes by what retires. -/
theorem register_eq : (fun x => s'.rm.register x) =
    if s.retires = true ∧ 0 < s.head.dest then
      Function.update (fun x => s.rm.register x) s.head.dest s.head.value
    else fun x => s.rm.register x := by
  have hw : s.writesHead = true ↔ s.retires = true ∧ 0 < s.head.dest := by
    cases hc : s.commits
    · simp [Latched.writesHead, Latched.retires, hc]
    · exact writesHead_iff (ent.entry _ (head_mem ctl hc))
  rw [← if_congr hw rfl rfl]
  funext x
  by_cases hx : s.writesHead = true ∧ x = s.head.dest
  · obtain ⟨h, rfl⟩ := hx
    rw [if_pos h, Function.update_self]
    exact st.written (r := .register s.head.dest) ⟨h, rfl, rfl⟩
  · have hk : s'.rm.register x = s.rm.register x :=
      st.kept (r := .register x) fun v hv => hx ⟨hv.1, hv.2.1⟩
    rw [hk]
    split_ifs with h
    · rw [Function.update_of_ne fun he => hx ⟨h, he⟩]
    · rfl

omit ctl ent in
theorem memory_step : q'.memory image = s.retired.toList.foldl
    (fun m data => data.store?.elim m (applyStore m)) (q.memory image) := by
  rw [Plain.memory, Plain.memory, Plain.retiredStores, Plain.retiredStores, st.retired,
    List.filterMap_append]
  unfold Latched.retired
  split_ifs with hr
  · cases h : s.head.store? <;> simp [h, applyStores]
  · simp

theorem committed_eq (hh : HeadResolved image s q) :
    s'.committed (q'.memory image) =
      if s.retires then (s.committed (q.memory image)).step s.head.inst s.head.pc
      else s.committed (q.memory image) := by
  have hregs := st.register_eq ctl ent
  have hmem : q'.memory image = _ := st.memory_step
  rw [Latched.committed, hregs, hmem]
  unfold Latched.retired
  cases hr : s.retires
  · simp [Latched.committed]
  · have hm := head_mem ctl (Latched.commits_of_retires hr)
    rw [if_pos rfl, (hh hr).step_eq (ent.entry _ hm)]
    simp [Latched.committed]

variable (hc : s.rm.robs.clear = false) (hh : HeadResolved image s q)
include hc hh

omit hc in
/-- Executing what a tick leaves after what it retires gives the same state. -/
theorem committed_after {l l' : List ℤ}
    (hl : (if s.retires then [s.rm.robs.head] else []) ++ l = l') (hsub : ∀ i ∈ l, i ∈ s.robs) :
    (s'.committed (q'.memory image)).after (l.map s'.rm.robPayload) =
      (s.committed (q.memory image)).after (l'.map s.rm.robPayload) := by
  have hsame : ∀ i ∈ l, (s'.rm.robPayload i).inst = (s.rm.robPayload i).inst ∧
      (s'.rm.robPayload i).pc = (s.rm.robPayload i).pc := fun i hi =>
    have h := st.robPayload_same ctl (hsub i hi)
    ⟨h.inst, h.pc⟩
  rw [Arch.after_congr hsame, ← hl, List.map_append, Arch.after_append, st.committed_eq ctl ent hh]
  cases s.retires <;> rfl

/-- The state that an entry starts from stays the same until it retires. -/
theorem archAt_eq (hs : slot ∈ s.robs) (hr : ¬(s.retires = true ∧ slot = s.rm.robs.head)) :
    s'.archAt (q'.memory image) slot = s.archAt (q.memory image) slot :=
  st.committed_after ctl ent hh (st.older_eq ctl hc hs hr) fun _ hi =>
    older_subset (st.older_sub ctl hc hs hr hi)

omit hh ent in
theorem dispatch_older (hd : (s.dispatch p).isSome = true) :
    (if s.retires then [s.rm.robs.head] else []) ++ s'.older s.rm.robs.tail = s.robs := by
  rw [st.older_dispatch ctl hc hd]
  cases hr : s.retires
  · rfl
  · exact (robs_head ctl (Latched.commits_of_retires hr)).symm

theorem archAt_dispatch (hd : (s.dispatch p).isSome = true) :
    s'.archAt (q'.memory image) s.rm.robs.tail = s.archEnd (q.memory image) := by
  have hold := st.dispatch_older ctl hc hd
  refine st.committed_after ctl ent hh hold fun i hi => ?_
  change i ∈ s'.older s.rm.robs.tail at hi
  rw [← hold]
  exact List.mem_append_right _ hi

omit ent hc hh in
/-- The last writer before an entry stays the last one until it retires. -/
theorem last_writer {x : RegId} {w : ℤ} {l l' : List ℤ}
    (hl : (if s.retires then [s.rm.robs.head] else []) ++ l = l') (hsub : ∀ i ∈ l, i ∈ s.robs)
    (h : (l'.filter fun i => (s.rm.robPayload i).dest = x).getLast? = some w)
    (hr : ¬(s.retires = true ∧ w = s.rm.robs.head)) :
    (l.filter fun i => (s'.rm.robPayload i).dest = x).getLast? = some w := by
  rw [← hl] at h
  have hsame : (l.filter fun i => (s'.rm.robPayload i).dest = x) =
      l.filter fun i => (s.rm.robPayload i).dest = x :=
    List.filter_congr fun i hi => by rw [(st.robPayload_same ctl (hsub i hi)).dest]
  rw [hsame]
  refine getLast?_filter_append h fun hm => hr ?_
  split_ifs at hm with ht
  · exact ⟨ht, List.mem_singleton.1 hm⟩
  · cases hm

omit ent hh in
theorem writerBefore_eq {x : RegId} {w : ℤ} (hs : slot ∈ s.robs)
    (hr : ¬(s.retires = true ∧ slot = s.rm.robs.head))
    (h : s.writerBefore slot x = some w) (hw : ¬(s.retires = true ∧ w = s.rm.robs.head)) :
    s'.writerBefore slot x = some w :=
  st.last_writer ctl (st.older_eq ctl hc hs hr)
    (fun _ hi => older_subset (st.older_sub ctl hc hs hr hi)) h hw

omit ent hh in
theorem writerBefore_dispatch {x : RegId} {w : ℤ} (hd : (s.dispatch p).isSome = true)
    (h : s.writer x = some w) (hw : ¬(s.retires = true ∧ w = s.rm.robs.head)) :
    s'.writerBefore s.rm.robs.tail x = some w := by
  have hold := st.dispatch_older ctl hc hd
  refine st.last_writer ctl hold (fun i hi => ?_) h hw
  change i ∈ s'.older s.rm.robs.tail at hi
  rw [← hold]
  exact List.mem_append_right _ hi

end Step

end

section
variable [WideShift]

def Latched.resultAt (s : Latched) (mem : MemData) (slot : ℤ) : Option Word :=
  (s.archAt mem slot).result (s.rm.robPayload slot).inst (s.rm.robPayload slot).pc

/-- A tag and a value stand for a register as the instruction of an entry finds it. -/
def Latched.Supplies (s : Latched) (mem : MemData) (slot : ℤ) (x : RegId) (src : RobId)
    (value : Word) : Prop :=
  if src = 0 then value = (s.archAt mem slot).get x
  else s.writerBefore slot x = some (robSlot src)

structure Latched.Requests (s : Latched) (mem : MemData) (slot : ℤ) (addr : Addr)
    (size : LsSize) : Prop where
  load : (s.rm.robPayload slot).isLoad
  addr : addr = (s.archAt mem slot).address (s.rm.robPayload slot).inst
  size : size = (s.rm.robPayload slot).inst.width

structure StoreFields (a : Arch) (data : RobPayload) : Prop where
  addr : data.op = .store → data.addrReady = true → data.addr = a.address data.inst
  value : data.op = .store → data.valueReady = true → data.value = a.get data.inst.rs2

/-- Stations hold the operands, and messages the results, that the entries before
    them lead to. -/
structure Operands (mem : MemData) (s : Latched) : Prop where
  flow : Flow s
    (fun t => (s.entryAt t.baseMsg.rob).op ≠ .store ∧
      aluExecute t.op t.value1 t.value2 = s.resultAt mem (robSlot t.baseMsg.rob))
    (fun m => (s.entryAt m.rob).op ≠ .store ∧
      s.resultAt mem (robSlot m.rob) = some m.result)
    (fun l => s.Requests mem (robSlot l.baseMsg.rob) l.addr l.size)
    (fun r => s.Requests mem (robSlot r.baseMsg.rob) r.addr r.size)
  operand1 : ∀ rs ∈ stations, s.rm.rsBusy rs = true → reads1 (s.entryOf rs).inst = true →
    s.Supplies mem (robSlot (s.rm.rsPayload rs).dest) (s.entryOf rs).inst.rs1
      (s.rm.rsPayload rs).src1 (s.rm.rsPayload rs).value1
  operand2 : ∀ rs ∈ stations, s.rm.rsBusy rs = true → reads2 (s.entryOf rs).inst = true →
    s.Supplies mem (robSlot (s.rm.rsPayload rs).dest) (s.entryOf rs).inst.rs2
      (s.rm.rsPayload rs).src2 (s.rm.rsPayload rs).value2
  ready : ∀ slot ∈ s.robs, s.rm.robReady slot = true →
    Resolved (s.archAt mem slot) (s.rm.robPayload slot)
  store : ∀ slot ∈ s.robs, StoreFields (s.archAt mem slot) (s.rm.robPayload slot)

end

/-- A tick takes a message as an operand. -/
def Latched.Takes (s : Latched) (p : Plain) (msg : CdbMessage) : Prop :=
  (∃ rs ∈ stations, s.rm.rsBusy rs = true ∧
    ((s.rm.rsPayload rs).src1 = msg.rob ∨ (s.rm.rsPayload rs).src2 = msg.rob)) ∨
  ∃ d ∈ s.dispatch p, ∃ x ∈ dispatchOperands d.2, (instRegSet s x).route = some .bus

instance (s : Latched) (p : Plain) (msg : CdbMessage) : Decidable (s.Takes p msg) :=
  inferInstanceAs (Decidable ((∃ rs ∈ stations, _) ∨ ∃ d ∈ s.dispatch p, _))

/-- What a tick takes of a JALR is its link. -/
def Latched.TakesLinks (s : Latched) (p : Plain) : Prop :=
  ∀ msg ∈ s.delivered, (s.entryAt msg.rob).op = .jalr → s.Takes p msg →
    msg.result = (s.entryAt msg.rob).pc + instSize

instance (s : Latched) (p : Plain) : Decidable (s.TakesLinks p) :=
  inferInstanceAs (Decidable (∀ msg ∈ s.delivered, _))

variable [WideShift] {s s' : Latched} {q p q' : Plain} {mem : MemData} {slot : ℤ} {x : RegId}

omit [WideShift] in
theorem instRegSet_unrouted (h : (instRegSet s x).route = none) (h0 : x ≠ 0)
    (hr : s.robIds x ≠ 0) : (instRegSet s x).src = s.robIds x := by
  simp only [instRegSet, regStoreRobIdGet, h0, hr, ↓reduceIte] at h ⊢
  cases hb : s.rm.robReady (robSlot (s.robIds x))
  · simp only [hb, Bool.false_eq_true, ↓reduceIte] at h ⊢
    cases hg : busGetData s with
    | none => rfl
    | some cdb =>
      simp only [hg] at h ⊢
      split_ifs at h ⊢
      rfl
  · simp [hb] at h

namespace Operands
variable (ok : Operands mem s) (co : Coherent s)
include ok co

theorem value_of_ready (hs : slot ∈ s.robs) (hr : s.rm.robReady slot = true)
    (hd : 0 ≤ (s.rm.robPayload slot).dest) :
    (s.archAt mem slot).value (s.rm.robPayload slot).inst (s.rm.robPayload slot).pc =
      (s.rm.robPayload slot).value := by
  have he := co.entries.entry slot hs
  refine (ok.ready slot hs hr).value_eq he fun ho => ?_
  rw [he.dest_of_store ho] at hd
  exact absurd hd (by decide)

theorem value_of_delivered {msg : CdbMessage} (hm : s.delivered = some msg)
    (hj : (s.entryAt msg.rob).op = .jalr → msg.result = (s.entryAt msg.rob).pc + instSize) :
    (s.archAt mem (robSlot msg.rob)).value (s.entryAt msg.rob).inst (s.entryAt msg.rob).pc =
      msg.result := by
  have hres := (ok.flow.bus msg (mem_busQueue hm)).2
  have he := co.entries.entry _ (co.conserved.delivered_open hm).1
  unfold Arch.value
  split_ifs with h
  · exact (hj (he.op.trans (he.legal.robOp_jalr_iff.2 h))).symm
  · change (s.resultAt mem (robSlot msg.rob)).getD 0 = _
    rw [hres, Option.getD_some]

/-- What dispatch finds of a register is its value after all entries. -/
theorem instRegSet_value (hc : s.rm.robs.clear = false) (hx : x ∈ regIds)
    (h : (instRegSet s x).src = 0)
    (hj : ∀ msg, s.delivered = some msg → (instRegSet s x).route = some .bus →
      (s.entryAt msg.rob).op = .jalr → msg.result = (s.entryAt msg.rob).pc + instSize) :
    (instRegSet s x).value = (s.archEnd mem).get x := by
  have ctl := co.conserved.control
  by_cases h0 : x = 0
  · simp [instRegSet, Arch.get, h0]
  rw [archEnd_get ctl co.entries hx h0]
  have hren := co.renamed x hx h0
  cases hw : s.writer x with
  | none =>
    rw [hw] at hren
    change s.robIds x = 0 at hren
    simp [instRegSet, regStoreRobIdGet, regStoreGet, h0, hren]
  | some w =>
    rw [hw] at hren
    change s.robIds x = robId w at hren
    obtain ⟨hm, hd⟩ := writer_spec hw
    have hne : robId w ≠ 0 := Int.ne_of_gt (robId_pos (ctl.robs.queueForeach_bounds hm).1)
    cases hrt : (instRegSet s x).route with
    | none =>
      have hsrc := instRegSet_unrouted hrt h0 (by rw [hren]; exact hne)
      rw [h, hren] at hsrc
      exact absurd hsrc.symm hne
    | some route =>
      obtain ⟨-, -, hcases⟩ := instRegSet_route hrt
      rw [hren, robSlot_robId] at hcases
      rw [Option.elim_some]
      rcases hcases with ⟨-, hr, hv⟩ | ⟨rfl, msg, hg, hrob, hv⟩
      · rw [hv, ok.value_of_ready co hm hr]
        rw [hd]
        exact regIds_nonneg hx
      · have hdel := ctl.delivered_of_dispatch hc hg
        have hval := ok.value_of_delivered co hdel (hj msg hdel hrt)
        simp only [Latched.entryAt, hrob, robSlot_robId] at hval
        rw [hv, hval]

omit [WideShift] ok in
theorem instRegSet_writer (hx : x ∈ regIds) (h : (instRegSet s x).src ≠ 0) :
    s.writer x = some (robSlot (instRegSet s x).src) ∧
      s.rm.robReady (robSlot (instRegSet s x).src) = false := by
  obtain ⟨h0, hsrc, hr, -⟩ := instRegSet_src h
  refine ⟨?_, hr⟩
  have hren := hsrc.trans (co.renamed x hx h0)
  cases hw : s.writer x with
  | none => exact absurd (by rw [hren, hw]; rfl) h
  | some w => simp [hren, hw]

end Operands

variable {image : MemData} {src : RobId} {value : Word}

theorem Operands.head_resolved (ok : Operands (q.memory image) s) (ctl : Control s) :
    HeadResolved image s q := by
  intro hr
  have hcm := Latched.commits_of_retires hr
  have hm := head_mem ctl hcm
  have h := ok.ready _ hm (ready_of_commits hcm)
  rwa [Latched.archAt, older_head ctl hcm] at h

namespace Operands
variable (ok : Operands (q.memory image) s) (co : Coherent s) (st : Step s q p s' q')
  (hc : s.rm.robs.clear = false)
include ok co st hc

/-- A station keeps an operand, or takes it from the message that it waits for. -/
theorem step_supplies (hs : slot ∈ s.robs) (hr : s.rm.robReady slot = false) (hx : x ∈ regIds)
    (h : s.Supplies (q.memory image) slot x src value)
    (hw : src ≠ 0 → s.rm.robReady (robSlot src) = false ∧ x ≠ 0)
    (hj : ∀ msg, s.delivered = some msg → src = msg.rob → (s.entryAt msg.rob).op = .jalr →
      msg.result = (s.entryAt msg.rob).pc + instSize) :
    s'.Supplies (q'.memory image) slot x
      (s.delivered.elim src fun msg => if src = msg.rob then 0 else src)
      (s.delivered.elim value fun msg => if src = msg.rob then msg.result else value) := by
  have ctl := co.conserved.control
  have hret := Latched.not_retired hr
  have harch := st.archAt_eq ctl co.entries hc (ok.head_resolved ctl) hs hret
  have hkept : s'.Supplies (q'.memory image) slot x src value := by
    unfold Latched.Supplies at h ⊢
    split_ifs at h ⊢ with h0
    · rw [harch]
      exact h
    · exact st.writerBefore_eq ctl hc hs hret h (Latched.not_retired (hw h0).1)
  cases hm : s.delivered with
  | none => exact hkept
  | some msg =>
    simp only [Option.elim_some]
    split_ifs with he
    · have h0 : src ≠ 0 := he ▸ co.conserved.delivered_ne_zero hm
      rw [Latched.Supplies, if_neg h0] at h
      rw [Latched.Supplies, if_pos rfl, harch, archAt_get ctl co.entries hx (hw h0).2, h,
        Option.elim_some, he]
      exact (ok.value_of_delivered co hm (hj msg hm he)).symm
    · exact hkept

theorem dispatch_supplies (hd : (s.dispatch p).isSome = true) (hx : x ∈ regIds)
    (hj : ∀ msg, s.delivered = some msg → (instRegSet s x).route = some .bus →
      (s.entryAt msg.rob).op = .jalr → msg.result = (s.entryAt msg.rob).pc + instSize) :
    s'.Supplies (q'.memory image) s.rm.robs.tail x (instRegSet s x).src
      (instRegSet s x).value := by
  have ctl := co.conserved.control
  unfold Latched.Supplies
  split_ifs with h0
  · rw [st.archAt_dispatch ctl co.entries hc (ok.head_resolved ctl) hd]
    exact ok.instRegSet_value co hc hx h0 hj
  · obtain ⟨hw, hr⟩ := instRegSet_writer co hx h0
    exact st.writerBefore_dispatch ctl hc hd hw (Latched.not_retired hr)

omit [WideShift] ok co st hc in
theorem dispatchRsPayload_operands {inst : Inst} (hl : Legal inst) {seq : ℕ} {rob : RobId}
    {pc : Addr} {old : RsPayload} :
    (reads1 inst = true →
      (dispatchRsPayload s seq rob inst pc old).src1 = (instRegSet s inst.rs1).src ∧
      (dispatchRsPayload s seq rob inst pc old).value1 = (instRegSet s inst.rs1).value ∧
      inst.rs1 ∈ dispatchOperands inst) ∧
    (reads2 inst = true →
      (dispatchRsPayload s seq rob inst pc old).src2 = (instRegSet s inst.rs2).src ∧
      (dispatchRsPayload s seq rob inst pc old).value2 = (instRegSet s inst.rs2).value ∧
      inst.rs2 ∈ dispatchOperands inst) := by
  rcases hl.format_cases with ⟨hf, h | h | h⟩ | ⟨hf, h | h⟩ | ⟨hf, h⟩ | ⟨hf, h⟩ | ⟨hf, h⟩ | ⟨hf, h⟩
  all_goals
    simp [dispatchRsPayload, dispatchOperands, reads1, reads2, hf, h, Opcode.imm, Opcode.load,
      Opcode.jalr]

theorem step_operand {src : RsPayload → RobId} {value : RsPayload → Word} {reg : Inst → RegId}
    {reads : Inst → Bool} (links : s.TakesLinks p) (hreg : ∀ inst, Legal inst → reg inst ∈ regIds)
    (hsrc : ∀ (data : RsPayload) (o : Option CdbMessage),
      src (o.elim data (rsMsgPayload data)) =
        o.elim (src data) fun msg => if src data = msg.rob then 0 else src data)
    (hvalue : ∀ (data : RsPayload) (o : Option CdbMessage),
      value (o.elim data (rsMsgPayload data)) =
        o.elim (value data) fun msg => if src data = msg.rob then msg.result else value data)
    (hdisp : ∀ rs inst, s.dispatch p = some (rs, inst) → reads inst = true →
      src (s'.rm.rsPayload rs) = (instRegSet s (reg inst)).src ∧
        value (s'.rm.rsPayload rs) = (instRegSet s (reg inst)).value ∧
        reg inst ∈ dispatchOperands inst)
    (hwaits : ∀ rs ∈ stations, s.rm.rsBusy rs = true → src (s.rm.rsPayload rs) ≠ 0 →
      WaitsOn s rs (src (s.rm.rsPayload rs)) (reg (s.entryOf rs).inst))
    (htag : ∀ data : RsPayload, src data = data.src1 ∨ src data = data.src2)
    (h : ∀ rs ∈ stations, s.rm.rsBusy rs = true → reads (s.entryOf rs).inst = true →
      s.Supplies (q.memory image) (robSlot (s.rm.rsPayload rs).dest) (reg (s.entryOf rs).inst)
        (src (s.rm.rsPayload rs)) (value (s.rm.rsPayload rs))) :
    ∀ rs ∈ stations, s'.rm.rsBusy rs = true → reads (s'.entryOf rs).inst = true →
      s'.Supplies (q'.memory image) (robSlot (s'.rm.rsPayload rs).dest) (reg (s'.entryOf rs).inst)
        (src (s'.rm.rsPayload rs)) (value (s'.rm.rsPayload rs)) := by
  intro rs hr hb hreads
  have inv := co.conserved
  have hrs := inv.control.rsClear.trans hc
  rcases (st.rsBusy hrs rs).1 hb with ⟨hb, -⟩ | hd
  · obtain ⟨hdest, hsame⟩ := Entries.entryOf_same inv st hr hb
    obtain ⟨hm, hready, -⟩ := inv.rs_open hr hb
    rw [hsame.inst] at hreads ⊢
    rw [hdest, st.rsPayload_busy hrs hr hb, hsrc, hvalue]
    refine ok.step_supplies co st hc hm hready (hreg _ (co.entries.entry _ hm).legal)
      (h rs hr hb hreads) (fun h0 => ?_) fun msg hd he hj => ?_
    · have hw := hwaits rs hr hb h0
      exact ⟨hw.waiting, hw.ne_zero⟩
    · refine links msg hd hj (.inl ⟨rs, hr, hb, ?_⟩)
      rw [← he]
      exact (htag _).imp Eq.symm Eq.symm
  · obtain ⟨⟨rs, inst⟩, hm, rfl⟩ := List.mem_map.1 hd
    have hd := Option.mem_toList.1 hm
    obtain ⟨hown, hentry, -, hi⟩ := st.entry_dispatch hd
    rw [hentry, hi] at hreads ⊢
    obtain ⟨h₁, h₂, hop⟩ := hdisp rs inst hd hreads
    rw [hown, robSlot_robId, h₁, h₂]
    exact ok.dispatch_supplies co st hc (by simp [hd]) (hreg _ (dispatch_decoded hd).2)
      fun msg hm hroute hj => links msg hm hj (.inr ⟨_, hd, _, hop, hroute⟩)

end Operands

namespace Operands
variable (ok : Operands mem s) (co : Coherent s) {rs : RsId}
include ok co

theorem station_result (hr : rs ∈ aluStations) (h : s.ready rs = true) :
    (s.entryOf rs).op ≠ .store ∧
      aluExecute (s.rm.rsPayload rs).opAlu (s.rm.rsPayload rs).value1
        (s.rm.rsPayload rs).value2 = s.resultAt mem (robSlot (s.rm.rsPayload rs).dest) := by
  simp only [Latched.ready, Bool.and_eq_true, decide_eq_true_eq] at h
  obtain ⟨⟨hb, h1⟩, h2⟩ := h
  have hm : rs ∈ stations := by simp [stations, hr]
  have he := co.entries.entry _ (co.conserved.rs_open hm hb).1
  have hst := co.entries.station rs hm hb
  have hkind := rsVec_disjoint (t := .reservationStation) hr hst.kind
  have hload : (s.entryOf rs).inst.opcode ≠ Opcode.load := fun ho =>
    absurd (hkind.trans (he.legal.instType_load_iff.2 ho)) (by decide)
  have hstore : (s.entryOf rs).op ≠ .store := fun ho => by
    have := he.legal.instType_store_iff.2 (he.legal.robOp_store_iff.1 (he.op.symm.trans ho))
    exact absurd (hkind.trans this) (by decide)
  have hv1 : (s.rm.rsPayload rs).value1 =
      (s.archAt mem (robSlot (s.rm.rsPayload rs).dest)).operand1 (s.entryOf rs).inst
        (s.entryOf rs).pc := by
    unfold Arch.operand1
    split_ifs with hreads
    · have hs := ok.operand1 rs hm hb hreads
      rwa [Latched.Supplies, if_pos h1] at hs
    · exact (hst.operand1 (by simpa using hreads)).2
  have hv2 : (s.rm.rsPayload rs).value2 =
      (s.archAt mem (robSlot (s.rm.rsPayload rs).dest)).operand2 (s.entryOf rs).inst := by
    unfold Arch.operand2
    split_ifs with hreads
    · have hs := ok.operand2 rs hm hb hreads
      rwa [Latched.Supplies, if_pos h2] at hs
    · exact (hst.operand2 (by simpa using hreads)).2 hload
  refine ⟨hstore, ?_⟩
  rw [hst.opAlu, hv1, hv2, Latched.resultAt, Arch.result]
  exact (if_neg hload).symm

theorem address_eq (hm : rs ∈ stations) (hb : s.rm.rsBusy rs = true)
    (hmem : (s.entryOf rs).inst.opcode = Opcode.load ∨
      (s.entryOf rs).inst.opcode = Opcode.store) (h1 : (s.rm.rsPayload rs).src1 = 0) :
    rsCalcAddr (s.rm.rsPayload rs) =
      (s.archAt mem (robSlot (s.rm.rsPayload rs).dest)).address (s.entryOf rs).inst := by
  have he := co.entries.entry _ (co.conserved.rs_open hm hb).1
  have hreads : reads1 (s.entryOf rs).inst = true := by
    have hf := he.legal.format
    rcases hmem with h | h <;> rw [Latched.entryOf] at h ⊢ <;>
      simp [reads1, hf, h, opcodeFormat, Opcode.load, Opcode.store, Opcode.imm, Opcode.jalr,
        Opcode.lui, Opcode.auipc, Opcode.op, Opcode.jal, Opcode.branch]
  have hs := ok.operand1 rs hm hb hreads
  rw [Latched.Supplies, if_pos h1] at hs
  rw [rsCalcAddr, (co.entries.station rs hm hb).addr hmem, hs]
  rfl

theorem load_requests (h : s.loadPick = some rs) :
    s.Requests mem (robSlot (s.rm.rsPayload rs).dest) (rsCalcAddr (s.rm.rsPayload rs))
      (s.rm.rsPayload rs).opLs := by
  obtain ⟨hr, hready⟩ := loadPick_spec h
  simp only [Latched.ready, Bool.and_eq_true, decide_eq_true_eq] at hready
  obtain ⟨⟨hb, h1⟩, -⟩ := hready
  have hm : rs ∈ stations := by simp [stations, hr]
  have he := co.entries.entry _ (co.conserved.rs_open hm hb).1
  have hst := co.entries.station rs hm hb
  have hl := he.legal.instType_load_iff.1 (rsVec_disjoint (t := .loadBuffer) hr hst.kind).symm
  refine ⟨hl, ok.address_eq co hm hb (.inl hl) h1, ?_⟩
  have hh : (s.entryOf rs).inst.op ≠ InstOp.hcf := fun hh =>
    absurd (hl.symm.trans (he.legal.opcode_of_hcf hh)) (by decide)
  rw [hst.opLs]
  exact he.legal.width hh (.inl hl)

end Operands

namespace Operands
variable (ok : Operands (q.memory image) s) (lo : LoadsOrdered image s q) (co : Coherent s)
  (st : Step s q p s' q') (hc : s.rm.robs.clear = false)
include ok co

omit ok in
/-- A completed load has the value that its entry is to have. -/
theorem load_result (lo : LoadsOrdered image s q) (so : StoresOk s q) {i : ℕ}
    (hi : s.memReady = some i) {msg : CdbMessage} (hm : s.memMsg q.data i = some msg)
    (hr : s.Requests (q.memory image) (robSlot (s.rm.loadReq i).baseMsg.rob) (s.rm.loadReq i).addr
      (s.rm.loadReq i).size) :
    s.resultAt (q.memory image) (robSlot msg.rob) = some msg.result := by
  obtain ⟨v, hv, rfl⟩ := Option.map_eq_some_iff.1 hm
  obtain ⟨-, hmem, hb, -⟩ := memReady_spec hi
  have hfore := (lo.flow.mem i hmem hb).foremost
  have hdata : (s.archAt (q.memory image) (robSlot (s.rm.loadReq i).baseMsg.rob)).data =
      q.memory image := by
    refine Arch.data_after fun data hd => ?_
    obtain ⟨j, hj, rfl⟩ := List.mem_map.1 hd
    have he := co.entries.entry j (older_subset hj)
    exact fun ho => hfore j hj (he.op.trans (he.legal.robOp_store_iff.2 ho))
  change s.resultAt (q.memory image) (robSlot (s.rm.loadReq i).baseMsg.rob) = some v
  have hl : (s.entryAt (s.rm.loadReq i).baseMsg.rob).inst.opcode = Opcode.load := hr.load
  rw [Latched.resultAt, Arch.result, if_pos hl, hdata, ← hr.addr, ← hr.size, ← lo.data_eq so hi]
  exact hv

include st hc

/-- What the instruction of an open entry computes does not change. -/
theorem step_open (hs : slot ∈ s.robs) (hr : s.rm.robReady slot = false) :
    (s'.rm.robPayload slot).Same (s.rm.robPayload slot) ∧
      s'.archAt (q'.memory image) slot = s.archAt (q.memory image) slot := by
  have ctl := co.conserved.control
  exact ⟨st.robPayload_same ctl hs,
    st.archAt_eq ctl co.entries hc (ok.head_resolved ctl) hs (Latched.not_retired hr)⟩

theorem step_flow (lo : LoadsOrdered image s q) (so : StoresOk s q) : Flow s'
    (fun t => (s'.entryAt t.baseMsg.rob).op ≠ .store ∧
      aluExecute t.op t.value1 t.value2 =
        s'.resultAt (q'.memory image) (robSlot t.baseMsg.rob))
    (fun m => (s'.entryAt m.rob).op ≠ .store ∧
      s'.resultAt (q'.memory image) (robSlot m.rob) = some m.result)
    (fun l => s'.Requests (q'.memory image) (robSlot l.baseMsg.rob) l.addr l.size)
    (fun r => s'.Requests (q'.memory image) (robSlot r.baseMsg.rob) r.addr r.size) := by
  have inv := co.conserved
  have hopen : ∀ m : CdbMessage, m.key ∈ s.carriers → (s'.entryAt m.rob).Same (s.entryAt m.rob) ∧
      s'.resultAt (q'.memory image) (robSlot m.rob) =
        s.resultAt (q.memory image) (robSlot m.rob) := by
    intro m hk
    obtain ⟨hs, hr, -⟩ : robSlot m.rob ∈ s.robs ∧ s.rm.robReady (robSlot m.rob) = false ∧ _ :=
      inv.mem_open hk
    obtain ⟨hsame, ha⟩ := ok.step_open co st hc hs hr
    refine ⟨hsame, ?_⟩
    rw [Latched.resultAt, ha, hsame.inst, hsame.pc]
    rfl
  have hrequest : ∀ (m : CdbMessage) {addr size}, m.key ∈ s.carriers →
      s.Requests (q.memory image) (robSlot m.rob) addr size →
        s'.Requests (q'.memory image) (robSlot m.rob) addr size := by
    intro m addr size hk h
    obtain ⟨hs, hr, -⟩ : robSlot m.rob ∈ s.robs ∧ s.rm.robReady (robSlot m.rob) = false ∧ _ :=
      inv.mem_open hk
    obtain ⟨hsame, ha⟩ := ok.step_open co st hc hs hr
    refine ⟨?_, ?_, ?_⟩
    · rw [RobPayload.isLoad, hsame.inst]
      exact h.load
    · rw [ha, hsame.inst]
      exact h.addr
    · rw [hsame.inst]
      exact h.size
  refine ok.flow.advance inv st ?_ (fun a _ _ ht result he => ⟨ht.1, ht.2.symm.trans he⟩)
    (fun rs hp => ok.load_requests co hp) (fun _ h => h) (fun _ _ h => ⟨h.load, h.addr, h.size⟩)
    (fun i hi hr msg hm => ⟨?_, load_result co lo so hi hm hr⟩) (fun t hk h => ?_)
    (fun m hk h => ?_) (fun l hk h => hrequest _ hk h) (fun r hk h => hrequest _ hk h)
  · intro a rs hs
    obtain ⟨-, -, hr, hready⟩ := aluPick_spec (aluPick_of_frees (aluFrees_of_starts hs))
    exact ok.station_result co hr hready
  · obtain ⟨v, -, rfl⟩ := Option.map_eq_some_iff.1 hm
    obtain ⟨-, hmem, hb, -⟩ := memReady_spec hi
    have hk := flow_carriers.mem i hmem hb
    have hop := (co.entries.entry _ (inv.mem_open hk).1).op_of_load hr.load
    exact fun ho => absurd (hop.symm.trans ho) (by decide)
  · obtain ⟨hsame, hres⟩ := hopen t.baseMsg hk
    rw [hres, hsame.op]
    exact h
  · obtain ⟨hsame, hres⟩ := hopen m hk
    rw [hres, hsame.op]
    exact h

end Operands

omit [WideShift] in
theorem dispatchRobPayload_fresh {predicted : BpResult} {seq : ℕ} {rs : RsId} {inst : Inst}
    {pc : Addr} {old : RobPayload} :
    (dispatchRobPayload s predicted seq rs inst pc old).addrReady = false ∧
      (dispatchRobPayload s predicted seq rs inst pc old).valueReady = false := by
  simp only [dispatchRobPayload]
  split <;> (try split_ifs) <;> exact ⟨rfl, rfl⟩

omit [WideShift] in
theorem rsStorePayload_fields (data : RsPayload) (old : RobPayload) :
    (rsStorePayload data old).addr =
        (if old.addrReady = false ∧ data.src1 = 0 then rsCalcAddr data else old.addr) ∧
      (rsStorePayload data old).addrReady = (old.addrReady || data.src1 = 0) ∧
      (rsStorePayload data old).value =
        (if old.valueReady = false ∧ data.src2 = 0 then data.value2 else old.value) ∧
      (rsStorePayload data old).valueReady = (old.valueReady || data.src2 = 0) := by
  unfold rsStorePayload
  cases ha : old.addrReady <;> cases hv : old.valueReady <;> by_cases h1 : data.src1 = 0 <;>
    by_cases h2 : data.src2 = 0 <;> simp [h1, h2, ha, hv]

omit [WideShift] in
theorem StoreFields.rsStorePayload {a : Arch} {data : RsPayload} {old : RobPayload}
    (h : StoreFields a old) (ha : data.src1 = 0 → rsCalcAddr data = a.address old.inst)
    (hv : data.src2 = 0 → data.value2 = a.get old.inst.rs2) :
    StoreFields a (rsStorePayload data old) := by
  obtain ⟨haddr, har, hval, hvr⟩ := rsStorePayload_fields data old
  have hsame := RobPayload.same_of_fixed (rsStorePayload_fixed data old)
  constructor
  · intro ho hr
    rw [haddr, hsame.inst]
    cases hb : old.addrReady
    · rw [har, hb, Bool.false_or, decide_eq_true_eq] at hr
      rw [if_pos ⟨rfl, hr⟩]
      exact ha hr
    · rw [if_neg (by simp)]
      exact h.addr (hsame.op ▸ ho) hb
  · intro ho hr
    rw [hval, hsame.inst]
    cases hb : old.valueReady
    · rw [hvr, hb, Bool.false_or, decide_eq_true_eq] at hr
      rw [if_pos ⟨rfl, hr⟩]
      exact hv hr
    · rw [if_neg (by simp)]
      exact h.value (hsame.op ▸ ho) hb

namespace Operands
variable (co : Coherent s)
include co

theorem storeEntry_fields (ok : Operands mem s) {rs : RsId} (h : s.storePick = some rs) :
    (s.entryOf rs).op = .store ∧
      StoreFields (s.archAt mem (robSlot (s.rm.rsPayload rs).dest)) (s.storeEntry rs) := by
  obtain ⟨hr, hready⟩ := storePick_spec h
  have hb := storeReady_busy hready
  have hm : rs ∈ stations := by simp [stations, hr]
  have hs := (co.conserved.rs_open hm hb).1
  have he := co.entries.entry _ hs
  have hop := co.entries.store_op co.conserved hr hb
  have hst := he.legal.robOp_store_iff.1 (he.op.symm.trans hop)
  have hreads : reads2 (s.entryOf rs).inst = true := by
    have hf := he.legal.format
    rw [hst] at hf
    rw [reads2, Latched.entryOf, hf]
    rfl
  refine ⟨hop, (ok.store _ hs).rsStorePayload (ok.address_eq co hm hb (.inr hst)) fun h2 => ?_⟩
  have hsup := ok.operand2 rs hm hb hreads
  rwa [Latched.Supplies, if_pos h2] at hsup

variable (ok : Operands (q.memory image) s) (st : Step s q p s' q')
  (hc : s.rm.robs.clear = false)
include ok st hc

theorem step_ready (hs : slot ∈ s'.robs) (hr : s'.rm.robReady slot = true) :
    Resolved (s'.archAt (q'.memory image) slot) (s'.rm.robPayload slot) := by
  have inv := co.conserved
  have ctl := inv.control
  obtain ⟨hm, hcases⟩ := inv.ready_cases st hc hs hr
  have hkeep := st.not_popped ctl hc hm hs
  rw [st.archAt_eq ctl co.entries hc (ok.head_resolved ctl) hm hkeep]
  rcases hcases with ⟨hr, h⟩ | ⟨-, msg, hd, he, h⟩ | ⟨-, rs, hf, rfl, h⟩
  · rw [h]
    exact ok.ready slot hm hr
  · have hmsg := ok.flow.bus msg (mem_busQueue hd)
    simp only [Latched.entryAt, he, robSlot_robId] at hmsg
    obtain ⟨hstore, hres⟩ := hmsg
    rw [h, robMsgPayload]
    split_ifs with hj
    · exact ⟨fun hn => absurd hj hn, fun _ => hres, fun ho => absurd ho hstore⟩
    · exact ⟨fun _ _ => hres, fun ho => absurd ho hj, fun ho => absurd ho hstore⟩
  · obtain ⟨hop, hfields⟩ := ok.storeEntry_fields co (storePick_of_frees hf)
    have hready : (s.storeEntry rs).addrReady = true ∧ (s.storeEntry rs).valueReady = true := by
      simpa [Latched.storeFrees, Option.filter_eq_some_iff] using
        (Option.filter_eq_some_iff.1 hf).2
    have hop' : (s.storeEntry rs).op = .store :=
      (RobPayload.same_of_fixed (rsStorePayload_fixed _ _)).op.trans hop
    rw [h]
    refine ⟨fun _ hn => absurd hop' hn, fun ho => ?_, fun _ => ?_⟩
    · exact absurd (hop'.symm.trans ho) (by decide)
    · exact ⟨hfields.addr hop' hready.1, hfields.value hop' hready.2⟩

theorem step_store (hs : slot ∈ s'.robs) :
    StoreFields (s'.archAt (q'.memory image) slot) (s'.rm.robPayload slot) := by
  have ctl := co.conserved.control
  rcases (st.mem_robs ctl hc).1 hs with ⟨hm, hkeep⟩ | ⟨hd, rfl⟩
  · rw [st.archAt_eq ctl co.entries hc (ok.head_resolved ctl) hm hkeep]
    rcases st.robPayload_cases ctl hm with h | ⟨msg, hd, he, h⟩ | ⟨rs, hp, rfl, h⟩
    · rw [h]
      exact ok.store slot hm
    · have hmsg := (ok.flow.bus msg (mem_busQueue hd)).1
      simp only [Latched.entryAt, he, robSlot_robId] at hmsg
      have hop : (s'.rm.robPayload slot).op ≠ .store := by
        rw [(st.robPayload_same ctl hm).op]
        exact hmsg
      exact ⟨fun ho => absurd ho hop, fun ho => absurd ho hop⟩
    · rw [h]
      exact (ok.storeEntry_fields co hp).2
  · obtain ⟨⟨rs, inst⟩, hd⟩ := Option.isSome_iff_exists.1 hd
    have hfresh : (s'.rm.robPayload s.rm.robs.tail).addrReady = false ∧
        (s'.rm.robPayload s.rm.robs.tail).valueReady = false := by
      rw [st.robPayload_dispatch hd]
      exact dispatchRobPayload_fresh
    exact ⟨fun _ h => by simp [hfresh.1] at h, fun _ h => by simp [hfresh.2] at h⟩

end Operands

/-- A tick that takes no target of a JALR for its link keeps operands and results right. -/
theorem Operands.step (ok : Operands (q.memory image) s) (co : Coherent s) (so : StoresOk s q)
    (lo : LoadsOrdered image s q) (links : s.TakesLinks p) (st : Step s q p s' q') :
    Operands (q'.memory image) s' := by
  have inv := co.conserved
  have ctl := inv.control
  cases hc : s.rm.robs.clear
  · refine
      { flow := ok.step_flow co st hc lo so
        operand1 := ?_
        operand2 := ?_
        ready := fun slot hs hr => Operands.step_ready co ok st hc hs hr
        store := fun slot hs => Operands.step_store co ok st hc hs }
    · refine ok.step_operand co st hc links (fun _ hl => hl.rs1) (fun _ o => by cases o <;> rfl)
        (fun _ o => by cases o <;> rfl) (fun rs inst hd => ?_) co.linked.src1 (fun _ => .inl rfl)
        ok.operand1
      rw [st.rsPayload_dispatch hd]
      exact (dispatchRsPayload_operands (dispatch_decoded hd).2).1
    · refine ok.step_operand co st hc links (fun _ hl => hl.rs2) (fun _ o => by cases o <;> rfl)
        (fun _ o => by cases o <;> rfl) (fun rs inst hd => ?_) co.linked.src2 (fun _ => .inr rfl)
        ok.operand2
      rw [st.rsPayload_dispatch hd]
      exact (dispatchRsPayload_operands (dispatch_decoded hd).2).2
  · have hq := st.quiet ctl hc
    have hnone : ∀ k : Key, k ∉ s'.carriers := by simp [hq.carriers]
    exact
      { flow := flow_carriers.mono (fun _ h => absurd h (hnone _)) (fun _ h => absurd h (hnone _))
          (fun _ h => absurd h (hnone _)) (fun _ h => absurd h (hnone _))
        operand1 := fun rs hr hb => by simp [hq.rsBusy rs hr] at hb
        operand2 := fun rs hr hb => by simp [hq.rsBusy rs hr] at hb
        ready := fun slot hs => by simp [hq.robs] at hs
        store := fun slot hs => by simp [hq.robs] at hs }

theorem operands_cpuCreate (mem image : MemData) (garbage : ℤ → ℤ → ℤ) (hist : ℤ) :
    Operands mem (latch (cpuCreate image garbage hist)) where
  flow :=
    { task := fun _ _ hb => by cases hb
      buf := fun _ _ hb => by cases hb
      helper := fun _ _ _ hm => by cases hm
      bus := fun _ hm => by cases hm
      lsq := fun _ hs => by cases hs
      mem := fun _ _ hb => by cases hb }
  operand1 := fun _ _ hb => by cases hb
  operand2 := fun _ _ hb => by cases hb
  ready := fun _ hs => by cases hs
  store := fun _ hs => by cases hs

end TomasuloCpu
